import Partha.Library.Steps
import Partha.Repository.Storage

/-!
# Imports and Deletions

The imports, the re-analysis and the deletion of `RepositoryService`, in sequence.

What an import leaves when it raises is settled by its handlers, which remove the
directory and the upload of its id. A step that stands outside a handler is the gap: the
write loop of an upload and the transaction after it, the name of a clone, the building of
the row, which dumps the tree, and all that follows a commit. A deletion removes the path
of its row, which is not the directory of the repository if the archive had a single root.

## Main definitions

* `importUploadedRepository`, `importGithubRevision`, `reanalyseRepository`,
  `deleteRepository`: The operations.
* `service`: The system of all histories.
* `Consistent`: A directory for each row, a row for each directory, and no upload.
* `Careful`: The calls that raise at no step outside a handler, and delete no repository
  at a path inside its directory.
-/

namespace Partha

namespace Imports

open Canonical (Str)
open Lineage (RepositoryLineage RepositoryRecord)
open Program

section Operations

variable (faults : Step → Except Failure Unit) (platform : Platform) (settings : Settings)

/-- `_content_hash_for_upload`. -/
def contentHash (content : List Nat) : String :=
  "sha256:" ++ String.ofList (Sha256.hex content)

/-- `_parse_repository` and `_validate_parsed_repository`. -/
def parseRepository (root : LocalPath) : Operation Unit := do
  check (faults .parse)
  let entries ← read (fun s => (s.disk.entriesAt root).getD [])
  let parsed ← check (platform.parse entries)
  if parsed.totalFiles = 0 then
    raise (.validation "Repository archive does not contain any readable files.")
  else pure ()

/-- The `try` block of `import_uploaded_repository`: a content hash and a root. -/
def unpackUpload (ownerId repositoryId : Nat) (path : UploadPath) :
    Operation (String × LocalPath) := do
  check (faults .hash)
  let content ← read (fun s => s.disk.content path)
  check (faults .findRevision)
  let rows ← read State.rows
  if rows.any (fun r => r.record.revisionValue = some (contentHash content) &&
      r.record.ownerId = ownerId) then
    raise (.conflict "Repository has already been imported.")
  else do
    let root ← extractArchive faults platform settings path repositoryId
    parseRepository faults platform root
    pure (contentHash content, root)

/-- The row of an upload. -/
def uploadRow (ownerId repositoryId : Nat) (unpacked : String × LocalPath) : RepositoryRow where
  record := {
    id := repositoryId
    ownerId := ownerId
    revisionValue := some unpacked.1
    lineageId := none
    sequence := none }
  source := "upload".toList
  sourceUrl := none
  branch := none
  revisionKind := "upload".toList
  revisionRef := none
  localPath := unpacked.2

/-- `import_uploaded_repository`. -/
def importUploadedRepository (ownerId : Nat) (file : UploadFile) : Operation RepositoryRow := do
  let repositoryId ← newUuid
  let path ← saveUpload faults repositoryId file settings.maxUploadSizeBytes
  let unpacked ← handle (unpackUpload faults platform settings ownerId repositoryId path)
    fun e => do
      deleteUpload path
      deleteRepositoryId repositoryId
      raise e
  deleteUpload path
  -- The metadata and the tree are dumped for the row, outside of the handler.
  check (faults .build)
  let row ← add faults (uploadRow ownerId repositoryId unpacked)
  check (faults .respond)
  pure row

/-- What `git clone` does. -/
inductive CloneAnswer where
  | cloned (entries : List Entry)
  | timedOut
  | refused

/-- What Git answers, about a clone and about the remote. -/
structure GitAnswers where
  clone : CloneAnswer
  headCommit : Option String
  headRef : Option String
  remoteHead : Except Failure (Option String)

mutual

/-- `_directory_size`. -/
def directorySize : List Entry → Nat
  | [] => 0
  | entry :: rest => entrySize entry + directorySize rest

def entrySize : Entry → Nat
  | .file _ content => content.length
  | .directory _ entries => directorySize entries

end

/-- `clone_public_repository`. -/
def clonePublicRepository (repositoryId : Nat) (answer : CloneAnswer) : Operation Unit := do
  check (faults .clone)
  match answer with
  | .timedOut => do
    deleteRepositoryId repositoryId
    raise (.timeout "GitHub repository clone timed out.")
  | .refused => do
    deleteRepositoryId repositoryId
    raise (.external
      "Failed to clone GitHub repository. Confirm the repository is public and the branch exists.")
  | .cloned entries => do
    onDisk (·.setDirectory repositoryId (some entries))
    if settings.maxCloneSizeBytes < directorySize entries then do
      deleteRepositoryId repositoryId
      raise (.validation "Cloned repository exceeds the configured maximum size.")
    else pure ()

def gitDirectory : Str :=
  ".git".toList

/-- `_resolve_repository_root`, of the entries of a clone. -/
def repositoryRoot (repositoryId : Nat) (entries : List Entry) : LocalPath :=
  match entries.filter (fun e => e.name ≠ gitDirectory) with
  | [.directory name _] =>
    if entries.any (fun e => e.name = gitDirectory) then ⟨repositoryId, none⟩
    else ⟨repositoryId, some name⟩
  | _ => ⟨repositoryId, none⟩

/-- `GIT_SHA_RE.fullmatch`. -/
def isGitSha (sha : String) : Bool :=
  sha.toList.length = 40 && sha.toList.all (fun c => c.isDigit || ('a' ≤ c && c ≤ 'f'))

/-- `_git_revision`, without its kind. -/
def gitRevision (answers : GitAnswers) : Operation (String × String) :=
  match answers.headCommit.filter isGitSha with
  | none =>
    raise (.service "Unable to determine an immutable Git commit for the imported repository.")
  | some sha => do
    check (faults .readRef)
    match answers.headRef.filter (fun ref => "refs/".toList.isPrefixOf ref.toList) with
    | none =>
      raise (.service "Unable to determine the resolved Git ref for the imported repository.")
    | some ref => pure (sha, ref)

/-- A clone: its root, its commit and its ref. -/
structure Clone where
  root : LocalPath
  commitSha : String
  revisionRef : String
  deriving DecidableEq, Repr

/-- The first `try` block of `_import_github_revision`. -/
def cloneRevision (repositoryId : Nat) (answers : GitAnswers) : Operation Clone := do
  clonePublicRepository faults settings repositoryId answers.clone
  check (faults .resolveRoot)
  let entries ← read (fun s => (s.disk.directories repositoryId).getD [])
  let root := repositoryRoot repositoryId entries
  check (faults .readHead)
  let revision ← gitRevision faults answers
  parseRepository faults platform root
  pure ⟨root, revision.1, revision.2⟩

/-- `repository_name`. -/
def repositoryName (url : Str) : Str :=
  Github.removeGit ((Egress.rstripSlashes url).reverse.takeWhile (· ≠ '/')).reverse

/-- The row of a clone, before its lineage is known. -/
def githubRow (ownerId repositoryId : Nat) (url : Str) (branch : Option Str) (clone : Clone) :
    RepositoryRow where
  record := {
    id := repositoryId
    ownerId := ownerId
    revisionValue := some clone.commitSha
    lineageId := none
    sequence := none }
  source := "github".toList
  sourceUrl := some url
  branch := branch
  revisionKind := "git".toList
  revisionRef := some clone.revisionRef.toList
  localPath := clone.root

/-- The second `try` block. The key of the lineage is computed inside it. -/
def addToLineage (ownerId : Nat) (url : Str) (clone : Clone) (row : RepositoryRow) :
    Operation RepositoryRow :=
  match Github.canonicalGithubSource url with
  | none => raise .other
  | some key => addWithLineage faults row {
      ownerId := ownerId
      canonicalSourceKey := String.ofList key
      canonicalBranch := clone.revisionRef
      displayName := String.ofList (repositoryName url) }

/-- `_import_github_revision`. -/
def importGithubRevision (ownerId : Nat) (url : Str) (branch : Option Str)
    (answers : GitAnswers) : Operation RepositoryRow := do
  let repositoryId ← newUuid
  resetRepositoryPath faults repositoryId
  let clone ← handle (cloneRevision faults platform settings repositoryId answers)
    fun e => do
      deleteRepositoryId repositoryId
      raise e
  check (faults .name)
  check (faults .build)
  let row ← handle
    (addToLineage faults ownerId url clone (githubRow ownerId repositoryId url branch clone))
    fun
      | .duplicate _ => do
        deleteRepositoryId repositoryId
        raise (.conflict "Repository has already been imported.")
      | e => do
        deleteRepositoryId repositoryId
        raise e
  check (faults .respond)
  pure row

/-- `BRANCH_RE.match`, and the other conditions on the name of a branch. -/
def isBranch (branch : Str) : Bool :=
  Github.beforeEnd branch ≠ [] &&
    (Github.beforeEnd branch).all (fun c => Github.isNameChar c || c = '/') &&
    !(branch.zip branch.tail).any (fun two => two.1 = '.' && two.2 = '.') &&
    !(branch.head?.any (fun c => c = '/' || c = '-')) &&
    !(branch.getLast?.any (fun c => c = '/' || c = '.'))

/-- `validate_branch`. -/
def validateBranch (branch : Option Str) : Except Failure (Option Str) :=
  match branch with
  | none => .ok none
  | some [] => .ok none
  | some name =>
    if isBranch name then .ok (some name)
    else .error (.validation "Branch name contains unsupported characters.")

/-- `import_github_repository`, with what `split_import_url` makes of the URL. -/
def importGithubRepository (ownerId : Nat) (split : Except Failure (Str × Option Str))
    (branch : Option Str) (answers : GitAnswers) : Operation RepositoryRow := do
  let parts ← check split
  -- An empty branch field is no branch.
  let branch ← check (validateBranch (if branch.getD [] = [] then parts.2 else branch))
  importGithubRevision faults platform settings ownerId parts.1 branch answers

/-- `_get_record`. -/
def getRecord (ownerId repositoryId : Nat) : Operation RepositoryRow := do
  check (faults .get)
  let rows ← read State.rows
  match rows.find? (fun r => r.record.id = repositoryId && r.record.ownerId = ownerId) with
  | none => raise (.notFound "Repository not found.")
  | some row => pure row

/-- `_latest_in_lineage`. -/
def latestInLineage (ownerId : Nat) (row : RepositoryRow) : Operation RepositoryRow :=
  match row.record.lineageId with
  | none => pure row
  | some lineageId => do
    check (faults .listMembers)
    let rows ← read State.rows
    pure (((rows.filter (fun r => r.record.lineageId = some lineageId &&
      r.record.ownerId = ownerId)).argmax (fun r => r.record.sequence.getD 0)).getD row)

/-- `reanalyse_repository`. -/
def reanalyseRepository (ownerId repositoryId : Nat) (answers : GitAnswers) :
    Operation RepositoryRow := do
  let row ← getRecord faults ownerId repositoryId
  if row.source ≠ "github".toList || row.sourceUrl.getD [] = [] then
    raise (.conflict ("Only repositories imported from GitHub can be re-analysed. " ++
      "An upload has no upstream to check."))
  else do
    let latest ← latestInLineage faults ownerId row
    let url ← check ((Github.validatePublicUrl (row.sourceUrl.getD [])).mapError
      (fun e => .validation e.message))
    let branch ← check (validateBranch row.branch)
    check (faults .readRemote)
    let remoteHead ← check answers.remoteHead
    match remoteHead with
    | none => raise (.external ("GitHub did not return a commit for this branch, " ++
        "so there is nothing to compare against."))
    | some head =>
      if latest.revisionKind = "git".toList && latest.record.revisionValue = some head then do
        check (faults .respondLatest)
        pure latest
      else importGithubRevision faults platform settings ownerId url branch answers

/-- `delete_repository`. -/
def deleteRepository (ownerId repositoryId : Nat) : Operation Unit := do
  let row ← getRecord faults ownerId repositoryId
  deleteWithLineageUpdate faults row.record
  onDisk (·.removeTree row.localPath)

end Operations

section Histories

/-- One request of an owner, with what raises in it and what it is answered. -/
inductive Call where
  | upload (ownerId : Nat) (file : UploadFile) (faults : Step → Except Failure Unit)
  | github (ownerId : Nat) (split : Except Failure (Str × Option Str)) (branch : Option Str)
      (answers : GitAnswers) (faults : Step → Except Failure Unit)
  | reanalyse (ownerId repositoryId : Nat) (answers : GitAnswers)
      (faults : Step → Except Failure Unit)
  | delete (ownerId repositoryId : Nat) (faults : Step → Except Failure Unit)

/-- The operation of a call, without what it returns. -/
def Call.operation (platform : Platform) (settings : Settings) : Call → Operation Unit
  | .upload ownerId file faults => do
    let _ ← importUploadedRepository faults platform settings ownerId file
    pure ()
  | .github ownerId split branch answers faults => do
    let _ ← importGithubRepository faults platform settings ownerId split branch answers
    pure ()
  | .reanalyse ownerId repositoryId answers faults => do
    let _ ← reanalyseRepository faults platform settings ownerId repositoryId answers
    pure ()
  | .delete ownerId repositoryId faults => deleteRepository faults ownerId repositoryId

def initial : State where
  rows := []
  lineages := []
  disk := ⟨fun _ => none, []⟩
  nextUuid := 0

/-- Sequential operations. Each runs until it returns or raises. -/
def service (platform : Platform) (settings : Settings) : StepSystem State Call where
  init := fun s => s = initial
  step := fun s call => some (call.operation platform settings s).2

/-- A directory for each row, a row for each directory, and no upload. -/
structure Consistent (s : State) : Prop where
  directories : ∀ id, (s.disk.directories id).isSome = true ↔ ∃ row ∈ s.rows, row.record.id = id
  uploads : s.disk.uploads = []

/-- No step of an import from GitHub raises outside its handlers. -/
def CarefulGithub (faults : Step → Except Failure Unit) : Prop :=
  faults .name = .ok () ∧ faults .build = .ok () ∧
    (∀ attempt, faults (.refresh attempt) = .ok ()) ∧ faults .respond = .ok ()

/-- Neither the write loop of an upload raises nor the building of its row, nor its transaction,
    nor what follows. -/
def CarefulUpload (faults : Step → Except Failure Unit) : Prop :=
  (∀ i, faults (.readChunk i) = .ok ()) ∧ (∀ i, faults (.writeChunk i) = .ok ()) ∧
    faults .build = .ok () ∧ faults (.insert 0) = .ok () ∧ faults (.commit 0) = .ok () ∧
    faults (.refresh 0) = .ok () ∧ faults .respond = .ok ()

/-- The path of what is deleted is its directory, or a step raises before the commit. -/
def CarefulDelete (s : State) (ownerId repositoryId : Nat)
    (faults : Step → Except Failure Unit) : Prop :=
  (∀ row ∈ s.rows, row.record.id = repositoryId → row.record.ownerId = ownerId →
    row.localPath.child = none) ∨
  faults .get ≠ .ok () ∨ faults .delete ≠ .ok () ∨ faults .commitDelete ≠ .ok ()

/-- The calls that leave no gap, in a state. -/
def Careful (s : State) : Call → Prop
  | .upload _ _ faults => CarefulUpload faults
  | .github _ _ _ _ faults => CarefulGithub faults
  | .reanalyse _ _ _ faults => CarefulGithub faults
  | .delete ownerId repositoryId faults => CarefulDelete s ownerId repositoryId faults

/-- The repository that a call deletes. -/
def Call.deletes : Call → Option Nat
  | .delete _ repositoryId _ => some repositoryId
  | _ => none

end Histories

end Imports

end Partha
