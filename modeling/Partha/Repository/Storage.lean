import Partha.Github.Client
import Partha.Library.Effects
import Partha.Library.Sha256
import Partha.Lineage.Transactions

/-!
# Repositories on Disk and in the Database

`LocalStorage` and `RepositoryRepository`, as programs that may raise at any step.

What a step depends on and is not part of the repository is given with a call: the
chunks of an upload, what is in an archive, what Git answers. So is, for each step,
whether it raises. A clean-up never does.

A transaction is a program that changes the tables in one step, its commit. Whatever
raises before it leaves them as they are, and whatever raises after it does not.

## Main definitions

* `Disk`, `State`: Directories and uploads, and the tables beside them.
* `add`, `addWithLineage`, `deleteWithLineageUpdate`: Methods of `RepositoryRepository`.
* `saveUpload`, `extractArchive`: Methods of `LocalStorage`.
-/

namespace Partha

namespace Imports

open Canonical (Str)
open Lineage (RepositoryLineage RepositoryRecord)
open Program

section Disk

/-- A file or a directory in a directory. -/
inductive Entry where
  | file (name : Str) (content : List Nat)
  | directory (name : Str) (entries : List Entry)

def Entry.name : Entry → Str
  | .file name _ => name
  | .directory name _ => name

def Entry.isDirectory : Entry → Bool
  | .file _ _ => false
  | .directory _ _ => true

/-- `is_macos_artifact`. -/
def isMacosArtifact (name : Str) : Bool :=
  name = ".DS_Store".toList || "._".toList.isPrefixOf name

/-- The name of a file under `uploads/`. -/
structure UploadPath where
  repositoryId : Nat
  suffix : Str
  deriving DecidableEq, Repr

/-- The path of a repository: its directory, or one in it. -/
structure LocalPath where
  repositoryId : Nat
  child : Option Str
  deriving DecidableEq, Repr

/-- The directories under `repositories/` and the files under `uploads/`. -/
structure Disk where
  directories : Nat → Option (List Entry)
  uploads : List (UploadPath × List Nat)

def Disk.setDirectory (d : Disk) (id : Nat) (entries : Option (List Entry)) : Disk :=
  { d with directories := fun id' => if id' = id then entries else d.directories id' }

/-- Open a file for writing. -/
def Disk.create (d : Disk) (path : UploadPath) : Disk :=
  { d with uploads := (path, []) :: d.uploads.filter (fun u => u.1 ≠ path) }

def Disk.append (d : Disk) (path : UploadPath) (chunk : List Nat) : Disk :=
  { d with uploads := d.uploads.map (fun u => if u.1 = path then (u.1, u.2 ++ chunk) else u) }

def Disk.unlink (d : Disk) (path : UploadPath) : Disk :=
  { d with uploads := d.uploads.filter (fun u => u.1 ≠ path) }

def Disk.content (d : Disk) (path : UploadPath) : List Nat :=
  ((d.uploads.find? (fun u => u.1 = path)).map (·.2)).getD []

/-- What is at a path. -/
def Disk.entriesAt (d : Disk) (path : LocalPath) : Option (List Entry) :=
  match path.child, d.directories path.repositoryId with
  | _, none => none
  | none, some entries => some entries
  | some name, some entries => entries.findSome? fun
    | .directory name' children => if name' = name then some children else none
    | .file _ _ => none

/-- Remove the directory at a path, if there is one. -/
def Disk.removeTree (d : Disk) (path : LocalPath) : Disk :=
  match path.child, d.directories path.repositoryId with
  | _, none => d
  | none, some _ => d.setDirectory path.repositoryId none
  | some name, some entries =>
    d.setDirectory path.repositoryId
      (some (entries.filter (fun e => !(e.isDirectory && e.name = name))))

end Disk

section Tables

structure RepositoryRow where
  record : RepositoryRecord
  source : Str
  sourceUrl : Option Str
  branch : Option Str
  revisionKind : Str
  revisionRef : Option Str
  localPath : LocalPath
  deriving DecidableEq, Repr

structure State where
  rows : List RepositoryRow
  lineages : List RepositoryLineage
  disk : Disk
  nextUuid : Nat

/-- What a step raises. -/
inductive Failure where
  | validation (message : String)
  | conflict (message : String)
  | notFound (message : String)
  | external (message : String)
  | timeout (message : String)
  | service (message : String)
  | integrity
  | archive
  | duplicate (existing : RepositoryRecord)
  | other
  deriving DecidableEq, Repr

/-- The steps that may raise. Those of a retried transaction have the number of the
    attempt. -/
inductive Step where
  | openUpload
  | readChunk (i : Nat)
  | writeChunk (i : Nat)
  | hash
  | findRevision
  | reset
  | extract
  | clone
  | resolveRoot
  | readHead
  | readRef
  | parse
  | name
  | build
  | findLineage (attempt : Nat)
  | createLineage (attempt : Nat)
  | allocateSequence (attempt : Nat)
  | findDuplicate (attempt : Nat)
  | insert (attempt : Nat)
  | commit (attempt : Nat)
  | refresh (attempt : Nat)
  | respond
  | respondLatest
  | readRemote
  | get
  | listMembers
  | lockLineage
  | findLatest
  | delete
  | commitDelete
  deriving DecidableEq, Repr

abbrev Operation (α : Type) : Type :=
  Program State Failure α

variable (faults : Step → Except Failure Unit)

def State.setRows (s : State) (lineages : List RepositoryLineage) (rows : List RepositoryRow) :
    State :=
  { s with lineages := lineages, rows := rows }

def onDisk (f : Disk → Disk) : Operation Unit :=
  update (fun s => { s with disk := f s.disk })

/-- `uuid4()`. -/
def newUuid : Operation Nat := do
  let id ← read State.nextUuid
  update (fun s => { s with nextUuid := s.nextUuid + 1 })
  pure id

/-- The constraints on a row that is inserted. -/
def taken (rows : List RepositoryRow) (record : RepositoryRecord) : Bool :=
  rows.any (fun r => r.record.id = record.id) ||
    (record.lineageId.isSome && rows.any (fun r =>
      r.record.lineageId = record.lineageId && r.record.sequence = record.sequence))

/-- `add`. -/
def add (row : RepositoryRow) : Operation RepositoryRow := do
  check (faults (.insert 0))
  let rows ← read State.rows
  if taken rows row.record then raise .integrity
  else do
    check (faults (.commit 0))
    update (fun s => s.setRows s.lineages (s.rows ++ [row]))
    check (faults (.refresh 0))
    pure row

/-- What `add_with_lineage` is called with beside the row. -/
structure LineageRequest where
  ownerId : Nat
  canonicalSourceKey : String
  canonicalBranch : String
  displayName : String
  deriving DecidableEq, Repr

/-- `_find_lineage`. -/
def findLineage (request : LineageRequest) (lineages : List RepositoryLineage) :
    Option RepositoryLineage :=
  lineages.find? (fun l => l.ownerId = request.ownerId &&
    l.canonicalSourceKey = request.canonicalSourceKey &&
    l.canonicalBranch = request.canonicalBranch)

/-- The lineage of a request, and whether it is new. A new one is not committed. -/
def findOrCreate (request : LineageRequest) (attempt : Nat) :
    Operation (RepositoryLineage × Bool) := do
  check (faults (.findLineage attempt))
  let lineages ← read State.lineages
  match findLineage request lineages with
  | some lineage => pure (lineage, false)
  | none => do
    let id ← newUuid
    check (faults (.createLineage attempt))
    pure ({
      id := id
      ownerId := request.ownerId
      canonicalSourceKey := request.canonicalSourceKey
      canonicalBranch := request.canonicalBranch
      displayName := request.displayName
      latestRepositoryId := none
      nextSequence := 1 }, true)

/-- The lineage rows that a committed import leaves. -/
def advanced (lineages : List RepositoryLineage) (lineage : RepositoryLineage) (isNew : Bool)
    (repositoryId : Nat) : List RepositoryLineage :=
  if isNew then lineages ++ [lineage.advance repositoryId]
  else Rows.updateWhere (fun l => l.id = lineage.id) (RepositoryLineage.advance repositoryId)
    lineages

/-- The row in a lineage, with the sequence that was allocated. -/
def RepositoryRow.inLineage (row : RepositoryRow) (lineage : RepositoryLineage) : RepositoryRow :=
  { row with
    record := { row.record with
      lineageId := some lineage.id
      sequence := some lineage.nextSequence } }

/-- `_add_with_lineage_once`. -/
def addWithLineageOnce (row : RepositoryRow) (request : LineageRequest) (attempt : Nat) :
    Operation RepositoryRow := do
  let found ← findOrCreate faults request attempt
  check (faults (.allocateSequence attempt))
  check (faults (.findDuplicate attempt))
  let rows ← read State.rows
  match rows.find? (fun r => r.record.lineageId = some found.1.id &&
      r.record.revisionValue = row.record.revisionValue) with
  | some existing => raise (.duplicate existing.record)
  | none => do
    let row := row.inLineage found.1
    check (faults (.insert attempt))
    if taken rows row.record then raise .integrity
    else do
      check (faults (.commit attempt))
      update (fun s =>
        s.setRows (advanced s.lineages found.1 found.2 row.record.id) (s.rows ++ [row]))
      check (faults (.refresh attempt))
      pure row

/-- The attempts of `add_with_lineage`, from one on. -/
def addWithLineageFrom (row : RepositoryRow) (request : LineageRequest) :
    Nat → Nat → Operation RepositoryRow
  | 0, _ => raise .integrity
  | remaining + 1, attempt =>
    handle (addWithLineageOnce faults row request attempt) fun
      | .integrity => addWithLineageFrom row request remaining (attempt + 1)
      | e => raise e

/-- `add_with_lineage`, with a source key. -/
def addWithLineage (row : RepositoryRow) (request : LineageRequest) : Operation RepositoryRow :=
  addWithLineageFrom faults row request Lineage.maxLineageRetries 0

/-- The pointer that a deletion writes. -/
def planLatest (record : RepositoryRecord) :
    Operation (Option (RepositoryLineage × Option (Option Nat))) := do
  match record.lineageId with
  | none => pure none
  | some lineageId => do
    check (faults .lockLineage)
    let lineages ← read State.lineages
    match lineages.find? (fun l => l.id = lineageId) with
    | none => raise .other
    | some lineage => do
      check (faults .findLatest)
      let rows ← read State.rows
      pure (some (lineage, Lineage.plan (rows.map RepositoryRow.record) lineage record))

/-- The lineage rows after a deletion. -/
def repointed (lineages : List RepositoryLineage) :
    Option (RepositoryLineage × Option (Option Nat)) → List RepositoryLineage
  | none => lineages
  | some (lineage, latest) => Lineage.repointedLineages lineages lineage.id latest

/-- `delete_with_lineage_update`. -/
def deleteWithLineageUpdate (record : RepositoryRecord) : Operation Unit := do
  let planned ← planLatest faults record
  check (faults .delete)
  check (faults .commitDelete)
  update (fun s => s.setRows (repointed s.lineages planned)
    (s.rows.filter (fun r => r.record.id ≠ record.id)))

end Tables

section Storage

variable (faults : Step → Except Failure Unit)

/-- `UploadFile`, with the chunks that it is read in. -/
structure UploadFile where
  filename : Option Str
  chunks : List (List Nat)

structure Settings where
  maxUploadSizeBytes : Nat
  maxExtractedSizeBytes : Nat
  maxExtractedEntries : Nat
  maxCloneSizeBytes : Nat
  deriving DecidableEq, Repr

/-- A member of an archive. -/
structure Member where
  name : Str
  size : Nat
  linkOrDevice : Bool
  deriving DecidableEq, Repr

/-- What `zipfile` and `tarfile` make of a file. -/
inductive Archive where
  | zip (members : List Member)
  | tar (members : List Member)
  | unsupported
  deriving DecidableEq, Repr

/-- What the parser returns, as far as it decides something. -/
structure Parsed where
  totalFiles : Nat
  deriving DecidableEq, Repr

/-- What the imports use from outside. -/
structure Platform where
  archive : List Nat → Archive
  isSafeChild : Str → Bool
  extractall : List Nat → List Entry
  parse : List Entry → Except Failure Parsed

/-- `SAFE_ARCHIVE_SUFFIXES`. -/
def safeArchiveSuffixes : List Str :=
  [".tar.gz".toList, ".tgz".toList, ".tar".toList, ".zip".toList, ".gz".toList]

/-- `_safe_archive_suffix`. -/
def safeArchiveSuffix (filename : Option Str) : Str :=
  match filename with
  | none => []
  | some name =>
    (safeArchiveSuffixes.find? (fun suffix => suffix.isSuffixOf (Github.lower name))).getD []

/-- The write loop of `save_upload`, from a chunk on. -/
def saveChunks (maxSizeBytes : Nat) (path : UploadPath) :
    List (List Nat) → Nat → Nat → Operation Unit
  | [], i, _ => check (faults (.readChunk i))
  | chunk :: rest, i, total => do
    check (faults (.readChunk i))
    if chunk = [] then pure ()
    else if maxSizeBytes < total + chunk.length then do
      onDisk (·.unlink path)
      raise (.validation "Upload exceeds configured maximum size.")
    else do
      check (faults (.writeChunk i))
      onDisk (·.append path chunk)
      saveChunks maxSizeBytes path rest (i + 1) (total + chunk.length)

/-- `save_upload`. -/
def saveUpload (repositoryId : Nat) (file : UploadFile) (maxSizeBytes : Nat) :
    Operation UploadPath := do
  let path : UploadPath := ⟨repositoryId, safeArchiveSuffix file.filename⟩
  check (faults .openUpload)
  onDisk (·.create path)
  saveChunks faults maxSizeBytes path file.chunks 0 0
  pure path

/-- `reset_repository_path`. -/
def resetRepositoryPath (repositoryId : Nat) : Operation Unit := do
  check (faults .reset)
  onDisk (·.setDirectory repositoryId (some []))

/-- `delete_repository_id`. -/
def deleteRepositoryId (repositoryId : Nat) : Operation Unit :=
  onDisk (·.setDirectory repositoryId none)

/-- `delete_upload`. -/
def deleteUpload (path : UploadPath) : Operation Unit :=
  onDisk (·.unlink path)

mutual

/-- `_strip_macos_artifacts`, of the entries of a directory. -/
def stripMacosArtifacts : List Entry → List Entry
  | [] => []
  | entry :: rest =>
    if isMacosArtifact entry.name || entry.name = "__MACOSX".toList then stripMacosArtifacts rest
    else stripEntry entry :: stripMacosArtifacts rest

/-- The same of an entry that stays. -/
def stripEntry : Entry → Entry
  | .file name content => .file name content
  | .directory name entries => .directory name (stripMacosArtifacts entries)

end

/-- `_normalise_single_root`. -/
def normaliseSingleRoot (repositoryId : Nat) (entries : List Entry) : LocalPath :=
  match entries with
  | [.directory name _] => ⟨repositoryId, some name⟩
  | _ => ⟨repositoryId, none⟩

/-- The checks of `_safe_extract_zip` and `_safe_extract_tar`, from a member on. -/
def safeExtract (platform : Platform) (settings : Settings) (tar : Bool) :
    List Member → Nat → Nat → Except Failure Unit
  | [], _, _ => .ok ()
  | member :: rest, index, total =>
    if tar && member.linkOrDevice then
      .error (.validation "Archive contains unsupported link or device entries.")
    else if !platform.isSafeChild member.name then
      .error (.validation "Archive contains unsafe paths.")
    else if settings.maxExtractedEntries < index then
      .error (.validation "Archive contains more entries than the configured maximum.")
    else if settings.maxExtractedSizeBytes < total + member.size then
      .error (.validation "Archive would decompress to more than the configured maximum size.")
    else safeExtract platform settings tar rest (index + 1) (total + member.size)

/-- One archive is extracted. Extraction may raise when some of it is there. -/
def extractMembers (platform : Platform) (settings : Settings) (repositoryId : Nat)
    (content : List Nat) (tar : Bool) (members : List Member) : Operation LocalPath := do
  check (safeExtract platform settings tar members 1 0)
  onDisk (·.setDirectory repositoryId (some (platform.extractall content)))
  check (faults .extract)
  let entries := stripMacosArtifacts (platform.extractall content)
  onDisk (·.setDirectory repositoryId (some entries))
  pure (normaliseSingleRoot repositoryId entries)

/-- `extract_archive`. -/
def extractArchive (platform : Platform) (settings : Settings) (path : UploadPath)
    (repositoryId : Nat) : Operation LocalPath := do
  resetRepositoryPath faults repositoryId
  let content ← read (fun s => s.disk.content path)
  handle
    (match platform.archive content with
    | .zip members => extractMembers faults platform settings repositoryId content false members
    | .tar members => extractMembers faults platform settings repositoryId content true members
    | .unsupported =>
      raise (.validation "Unsupported archive format. Upload a ZIP or TAR archive."))
    fun
      | .archive => raise (.validation "Archive is corrupted or cannot be extracted.")
      | e => raise e

end Storage

end Imports

end Partha
