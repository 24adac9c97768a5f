import Partha.Github.Refs
import Partha.Library.SortKeys
import Partha.Lineage.Transactions

/-!
# Re-Analysis of a Lineage

`reanalyse_repository`, over a remote that changes between one request and the next.

A lineage is found by the ref that a clone was on when it was imported. Re-analysis does not
ask for that ref. It asks for the branch as it was requested at the import, and for `HEAD` if
none was requested, and clones the same; what it imports goes to the lineage of the ref that this
clone is on. The two are the same ref for a branch that was requested by its name, and for
a default branch as long as it is the default. They are different for a tag, and after the
default branch has changed. A URL is validated again, which removes another `.git` from
its end.

Requests are taken one after the other: how the transactions of several requests interleave is
the subject of `Lineage.Transactions`. What the check of the size and the parser make of a
commit is a parameter, which gives a message if they refuse it.

## Main definitions

* `addWithLineage`: `add_with_lineage`.
* `importGithubRevision`, `importGithubRepository`, `importUploadedRepository`,
  `deleteRepository`, `reanalyseRepository`: The requests.
* `service`: Any requests, with any remotes.
* `StaysInLineage`: What re-analysis is to do.
* `Follows`: When it does.

## Theorems

* `consistent_of_reachable`: The invariant of the rows.
* `canonicalGithubSource_validated`: Validating a URL again keeps its key iff it keeps the URL.
* `reanalyseRepository_eq`: Re-analysis asks, compares and imports.
* `reanalyse_stays_iff`: Re-analysis stays in the lineage exactly if it follows its ref.
-/

namespace Partha

namespace Reanalysis

open Canonical (Str)
open Github
open Lineage (RepositoryLineage CanonicalKey)
open List

section Rows

/-- A text column. -/
def text (s : Str) : String :=
  String.ofList s

/-- `RepositoryRecord`, with the columns that the requests read. -/
structure RepositoryRecord extends Lineage.RepositoryRecord where
  name : Str
  source : Str
  sourceUrl : Option Str
  branch : Option Str
  revisionKind : Str
  revisionRef : Option Str
  deriving DecidableEq, Repr

/-- A record as it is added to a lineage. -/
def RepositoryRecord.inLineage (record : RepositoryRecord) (lineage : RepositoryLineage) :
    RepositoryRecord :=
  { record with
    lineageId := some lineage.id
    sequence := some lineage.nextSequence }

structure State where
  lineages : List RepositoryLineage
  repositories : List RepositoryRecord
  nextUuid : Nat

def githubSource : Str :=
  "github".toList

def uploadSource : Str :=
  "upload".toList

def gitKind : Str :=
  "git".toList

def fresh (s : State) : State :=
  { s with nextUuid := s.nextUuid + 1 }

/-- The lineage that `_find_lineage` finds, or else a new one. -/
def targetLineage (s : State) (key : CanonicalKey) (displayName : Str) : RepositoryLineage × Bool :=
  match s.lineages.find? (fun l => l.key = key) with
  | some lineage => (lineage, false)
  | none =>
    ({ id := s.nextUuid
       ownerId := key.ownerId
       canonicalSourceKey := key.canonicalSourceKey
       canonicalBranch := key.canonicalBranch
       displayName := text displayName
       latestRepositoryId := none
       nextSequence := 1 }, true)

/-- The lineages after an import into one of them. -/
def advanced (s : State) (lineage : RepositoryLineage) (isNew : Bool) (repositoryId : Nat) :
    List RepositoryLineage :=
  if isNew then s.lineages ++ [lineage.advance repositoryId]
  else Rows.updateWhere (fun l => l.id = lineage.id) (RepositoryLineage.advance repositoryId)
    s.lineages

/-- `add_with_lineage`: the record as it was added, or the one that has its commit already. -/
def addWithLineage (s : State) (record : RepositoryRecord) (key : CanonicalKey)
    (displayName : Str) : Except RepositoryRecord (RepositoryRecord × State) :=
  let target := targetLineage s key displayName
  match s.repositories.find? (fun r => r.lineageId = some target.1.id ∧
      r.revisionValue = record.revisionValue) with
  | some existing => .error existing
  | none =>
    let added := record.inLineage target.1
    .ok (added,
      { lineages := advanced s target.1 target.2 added.id
        repositories := s.repositories ++ [added]
        nextUuid := if target.2 then s.nextUuid + 1 else s.nextUuid })

/-- `list_lineage_members`, the newest first. -/
def listLineageMembers (s : State) (lineageId ownerId : Nat) : List RepositoryRecord :=
  SortKeys.sortBy (fun r => OrderDual.toDual (r.sequence.getD 0))
    (s.repositories.filter (fun r => r.lineageId = some lineageId ∧ r.ownerId = ownerId))

/-- `_get_record`. -/
def getRecord (s : State) (repositoryId ownerId : Nat) : Except ServiceError RepositoryRecord :=
  match s.repositories.find? (fun r => r.id = repositoryId) with
  | none => .error (.notFound "Repository not found." repositoryId)
  | some record =>
    if record.ownerId = ownerId then .ok record
    else .error (.notFound "Repository not found." repositoryId)

/-- `_latest_in_lineage`. -/
def latestInLineage (s : State) (record : RepositoryRecord) (ownerId : Nat) : RepositoryRecord :=
  match record.lineageId with
  | none => record
  | some lineageId => (listLineageMembers s lineageId ownerId).head?.getD record

end Rows

section Requests

/-- `repository_name`. -/
def repositoryName (url : Str) : Str :=
  removeGit ((Egress.rstripSlashes url).reverse.takeWhile (· ≠ '/')).reverse

/-- What two URLs, an owner and a ref make of the key of a lineage. -/
def keyOf (ownerId : Nat) (source ref : Str) : CanonicalKey :=
  { ownerId := ownerId
    canonicalSourceKey := text source
    canonicalBranch := text ref }

/-- The record of a clone, before it is added to a lineage. -/
def githubRecord (repositoryId ownerId : Nat) (url : Str) (branch : Option Str) (sha ref : Str) :
    RepositoryRecord :=
  { id := repositoryId
    ownerId := ownerId
    revisionValue := some (text sha)
    lineageId := none
    sequence := none
    name := repositoryName url
    source := githubSource
    sourceUrl := some url
    branch := branch
    revisionKind := gitKind
    revisionRef := some ref }

/-- What an addition to a lineage is answered with. -/
def answered (s : State) :
    Except RepositoryRecord (RepositoryRecord × State) →
      Except ServiceError RepositoryRecord × State
  | .error existing => (.error (.conflict "Repository has already been imported." existing.id
      ("name", existing.name)), s)
  | .ok (added, s') => (.ok added, s')

variable (refusal : Str → Option String)

/-- `_import_github_revision`. -/
def importGithubRevision (s : State) (ownerId : Nat) (url : Str) (branch : Option Str)
    (remote : Remote) : Except ServiceError RepositoryRecord × State :=
  match clonePublicRepository remote branch with
  | .error e => (.error e, fresh s)
  | .ok clone =>
    match gitRevision clone branch with
    | .error e => (.error e, fresh s)
    | .ok (sha, ref) =>
      match refusal sha with
      | some message => (.error (.validation message), fresh s)
      | none =>
        match canonicalGithubSource url with
        | none => (.error (.service "not enough values to unpack (expected 2, got 1)"), fresh s)
        | some source =>
          answered (fresh s) (addWithLineage (fresh s)
            (githubRecord s.nextUuid ownerId url branch sha ref) (keyOf ownerId source ref)
            (repositoryName url))

/-- `import_github_repository`, of a URL and a branch that were split. -/
def importGithubRepository (s : State) (ownerId : Nat) (url : Str) (branch : Option Str)
    (remotes : Str → Remote) : Except ServiceError RepositoryRecord × State :=
  match validatePublicUrl url with
  | .error e => (.error (.validation e.message), s)
  | .ok url =>
    match validateBranch branch with
    | .error e => (.error (.validation e.message), s)
    | .ok branch => importGithubRevision refusal s ownerId url branch (remotes url)

/-- `import_uploaded_repository`, of a name and the hash of the content. -/
def importUploadedRepository (s : State) (ownerId : Nat) (name contentHash : Str) :
    Except ServiceError RepositoryRecord × State :=
  match s.repositories.find? (fun r => r.revisionValue = some (text contentHash) ∧
      r.ownerId = ownerId) with
  | some existing => (.error (.conflict "Repository has already been imported." existing.id
      ("name", existing.name)), fresh s)
  | none =>
    let record : RepositoryRecord :=
      { id := s.nextUuid
        ownerId := ownerId
        revisionValue := some (text contentHash)
        lineageId := none
        sequence := none
        name := name
        source := uploadSource
        sourceUrl := none
        branch := none
        revisionKind := uploadSource
        revisionRef := none }
    (.ok record, { fresh s with repositories := s.repositories ++ [record] })

/-- `delete_repository`. -/
def deleteRepository (s : State) (repositoryId ownerId : Nat) : Except ServiceError Unit × State :=
  match getRecord s repositoryId ownerId with
  | .error e => (.error e, s)
  | .ok record =>
    let rows := s.repositories.map RepositoryRecord.toRepositoryRecord
    let lineages := match s.lineages.find? (fun l => some l.id = record.lineageId) with
      | none => s.lineages
      | some lineage => Lineage.repointedLineages s.lineages lineage.id
          (Lineage.plan rows lineage record.toRepositoryRecord)
    (.ok (),
      { s with
        lineages := lineages
        repositories := s.repositories.filter (fun r => r.id ≠ record.id) })

/-- `RepositoryReanalysisResponse`, with its outcome. -/
inductive Response where
  | alreadyCurrent (repository : RepositoryRecord) (remoteHead : Str)
  | revisionImported (repository : RepositoryRecord) (remoteHead : Str)
      (previousRepositoryId : Nat)
  deriving DecidableEq, Repr

/-- What an import of `head` is answered with. -/
def imported (latest : RepositoryRecord) (head : Str)
    (result : Except ServiceError RepositoryRecord × State) :
    Except ServiceError Response × State :=
  (result.1.map (fun added => .revisionImported added head latest.id), result.2)

/-- `reanalyse_repository`. -/
def reanalyseRepository (s : State) (repositoryId ownerId : Nat) (remotes : Str → Remote) :
    Except ServiceError Response × State :=
  match getRecord s repositoryId ownerId with
  | .error e => (.error e, s)
  | .ok record =>
    match decide (record.source = githubSource), record.sourceUrl.filter (fun u => !u.isEmpty) with
    | true, some sourceUrl =>
      let latest := latestInLineage s record ownerId
      match validatePublicUrl sourceUrl with
      | .error e => (.error (.validation e.message), s)
      | .ok url =>
        match validateBranch record.branch with
        | .error e => (.error (.validation e.message), s)
        | .ok branch =>
          match readRemoteHeadCommit (remotes url) branch with
          | .error e => (.error e, s)
          | .ok none => (.error (.external ("GitHub did not return a commit for this branch, " ++
              "so there is nothing to compare against.") (some record.id)), s)
          | .ok (some remoteHead) =>
            if latest.revisionKind = gitKind ∧ latest.revisionValue = some (text remoteHead) then
              (.ok (.alreadyCurrent latest remoteHead), s)
            else
              imported latest remoteHead
                (importGithubRevision refusal s ownerId url branch (remotes url))
    | _, _ => (.error (.conflict ("Only repositories imported from GitHub can be re-analysed. " ++
        "An upload has no upstream to check.") record.id ("source", record.source)), s)

/-- A request. -/
inductive Operation where
  | importGithub (ownerId : Nat) (url : Str) (branch : Option Str)
  | importUpload (ownerId : Nat) (name contentHash : Str)
  | reanalyse (repositoryId ownerId : Nat)
  | delete (repositoryId ownerId : Nat)

/-- A request, with the remotes as they are and the commits as they are judged. -/
structure Request where
  operation : Operation
  remotes : Str → Remote
  refusal : Str → Option String

def handle (s : State) (request : Request) : State :=
  match request.operation with
  | .importGithub ownerId url branch =>
    (importGithubRepository request.refusal s ownerId url branch request.remotes).2
  | .importUpload ownerId name contentHash =>
    (importUploadedRepository s ownerId name contentHash).2
  | .reanalyse repositoryId ownerId =>
    (reanalyseRepository request.refusal s repositoryId ownerId request.remotes).2
  | .delete repositoryId ownerId => (deleteRepository s repositoryId ownerId).2

/-- Any requests, with any remotes. -/
def service : StepSystem State Request :=
  { init := fun s => s = { lineages := [], repositories := [], nextUuid := 0 }
    step := fun s request => some (handle s request) }

end Requests

section Invariant

theorem text_injective : Function.Injective text :=
  fun _ _ h => String.ofList_injective h

theorem text_inj {s t : Str} : text s = text t ↔ s = t :=
  text_injective.eq_iff

/-- What a member of a lineage is: an import from GitHub, at a URL with the key of the lineage,
    with a branch that can be validated again. -/
structure Member (r : RepositoryRecord) (l : RepositoryLineage) : Prop where
  owner : l.ownerId = r.ownerId
  source : r.source = githubSource
  kind : r.revisionKind = gitKind
  branch : validateBranch r.branch = .ok r.branch
  commit : ∃ sha, r.revisionValue = some (text sha)
  url : ∃ url key, r.sourceUrl = some url ∧ matchesGithub url = true ∧
    canonicalGithubSource url = some key ∧ l.canonicalSourceKey = text key
  sequence : ∃ n, r.sequence = some n ∧ n < l.nextSequence

/-- The invariant of the rows. -/
structure Consistent (s : State) : Prop where
  uuids : ∀ r ∈ s.repositories, r.id < s.nextUuid
  lineageUuids : ∀ l ∈ s.lineages, l.id < s.nextUuid
  ids : (s.repositories.map (fun r => r.id)).Nodup
  lineageIds : (s.lineages.map RepositoryLineage.id).Nodup
  keys : (s.lineages.map RepositoryLineage.key).Nodup
  members : ∀ r ∈ s.repositories, ∀ lineageId, r.lineageId = some lineageId →
    ∃ l ∈ s.lineages, l.id = lineageId ∧ Member r l
  sequences : ∀ r ∈ s.repositories, ∀ r' ∈ s.repositories, r.lineageId ≠ none →
    r.lineageId = r'.lineageId → r.sequence = r'.sequence → r = r'

variable {s s' : State} {r : RepositoryRecord} {l : RepositoryLineage}

variable {l' : RepositoryLineage} {record added : RepositoryRecord} {key : CanonicalKey}
  {displayName url : Str} {refusal : Str → Option String} {ownerId repositoryId : Nat}
  {branch : Option Str} {remotes : Str → Remote}

/-- A write to a lineage that moves its counter forwards, or not at all, keeps its members. -/
theorem Member.mono (h : Member r l) (howner : l'.ownerId = l.ownerId)
    (hsource : l'.canonicalSourceKey = l.canonicalSourceKey)
    (hnext : l.nextSequence ≤ l'.nextSequence) : Member r l' where
  owner := howner.trans h.owner
  source := h.source
  kind := h.kind
  branch := h.branch
  commit := h.commit
  url := by
    rw [hsource]
    exact h.url
  sequence := by
    rcases h.sequence with ⟨n, hn, hlt⟩
    exact ⟨n, hn, Nat.lt_of_lt_of_le hlt hnext⟩

theorem consistent_fresh (h : Consistent s) : Consistent (fresh s) where
  uuids := fun r hr => Nat.lt_succ_of_lt (h.uuids r hr)
  lineageUuids := fun l hl => Nat.lt_succ_of_lt (h.lineageUuids l hl)
  ids := h.ids
  lineageIds := h.lineageIds
  keys := h.keys
  members := h.members
  sequences := h.sequences

/-- The lineage that is found has the key, and so has a new one. -/
theorem targetLineage_cases (s : State) (key : CanonicalKey) (displayName : Str) :
    (∃ l ∈ s.lineages, l.key = key ∧ targetLineage s key displayName = (l, false)) ∨
      (∀ l ∈ s.lineages, l.key ≠ key) ∧
        ∃ l, l.id = s.nextUuid ∧ l.key = key ∧ l.nextSequence = 1 ∧
          targetLineage s key displayName = (l, true) := by
  unfold targetLineage
  cases hfind : s.lineages.find? (fun l => l.key = key) with
  | some l =>
    have hkey := List.find?_some hfind
    exact .inl ⟨l, mem_of_find?_eq_some hfind, of_decide_eq_true hkey, rfl⟩
  | none =>
    refine .inr ⟨?_, _, rfl, rfl, rfl, rfl⟩
    exact fun l hl hkey => List.find?_eq_none.mp hfind l hl (decide_eq_true hkey)

/-- What an import into a lineage does to the lineages. -/
structure Advanced (s : State) (l : RepositoryLineage) (key : CanonicalKey) (nextUuid : Nat)
    (lineages : List RepositoryLineage) : Prop where
  ids : (lineages.map RepositoryLineage.id).Nodup
  keys : (lineages.map RepositoryLineage.key).Nodup
  uuids : ∀ l' ∈ lineages, l'.id < nextUuid
  kept : ∀ l₀ ∈ s.lineages, ∃ l' ∈ lineages, l'.id = l₀.id ∧ l'.ownerId = l₀.ownerId ∧
    l'.canonicalSourceKey = l₀.canonicalSourceKey ∧ l₀.nextSequence ≤ l'.nextSequence
  target : ∃ l' ∈ lineages, l'.id = l.id ∧ l'.key = key ∧ l.nextSequence < l'.nextSequence

theorem advanced_old (hs : Consistent s) (hl : l ∈ s.lineages) (repositoryId : Nat) :
    Advanced s l l.key s.nextUuid (advanced s l false repositoryId) := by
  have hids : ∀ l₀ : RepositoryLineage, decide (l₀.id = l.id) = true →
      (l₀.advance repositoryId).id = l₀.id := fun _ _ => rfl
  have hkeys : ∀ l₀ : RepositoryLineage, decide (l₀.id = l.id) = true →
      (l₀.advance repositoryId).key = l₀.key := fun _ _ => rfl
  refine ⟨?_, ?_, ?_, ?_, ?_⟩
  · exact (Rows.map_updateWhere hids s.lineages).symm ▸ hs.lineageIds
  · exact (Rows.map_updateWhere hkeys s.lineages).symm ▸ hs.keys
  · intro l' hl'
    rcases Rows.mem_updateWhere.mp hl' with ⟨hmem, -⟩ | ⟨l₀, hmem, -, heq⟩
    · exact hs.lineageUuids l' hmem
    · rw [heq]
      exact hs.lineageUuids l₀ hmem
  · intro l₀ hl₀
    refine ⟨_, Rows.mem_updateWhere_of_mem hl₀, ?_⟩
    by_cases hid : decide (l₀.id = l.id) = true
    · rw [if_pos hid]
      exact ⟨rfl, rfl, rfl, Nat.le_succ _⟩
    · rw [if_neg hid]
      exact ⟨rfl, rfl, rfl, Nat.le_refl _⟩
  · exact ⟨_, Rows.updated_mem hl (decide_eq_true rfl), rfl, rfl, Nat.lt_succ_self _⟩

theorem advanced_new (hs : Consistent s) (hid : l.id = s.nextUuid)
    (hkey : ∀ l' ∈ s.lineages, l'.key ≠ l.key) (repositoryId : Nat) :
    Advanced s l l.key (s.nextUuid + 1) (advanced s l true repositoryId) := by
  have hlineages : advanced s l true repositoryId = s.lineages ++ [l.advance repositoryId] := rfl
  rw [hlineages]
  refine ⟨?_, ?_, ?_, ?_, ?_⟩
  · rw [map_append]
    refine nodup_append.mpr ⟨hs.lineageIds, nodup_singleton _, ?_⟩
    intro a ha b hb hab
    rcases mem_map.mp ha with ⟨l', hl', rfl⟩
    have hb : b = l.id := mem_singleton.mp hb
    have hlt := hs.lineageUuids l' hl'
    omega
  · rw [map_append]
    refine nodup_append.mpr ⟨hs.keys, nodup_singleton _, ?_⟩
    intro a ha b hb hab
    rcases mem_map.mp ha with ⟨l', hl', rfl⟩
    exact hkey l' hl' (hab.trans (mem_singleton.mp hb))
  · intro l' hl'
    rcases mem_append.mp hl' with hl' | hl'
    · exact Nat.lt_succ_of_lt (hs.lineageUuids l' hl')
    · rw [mem_singleton.mp hl']
      exact hid ▸ Nat.lt_succ_self _
  · exact fun l₀ hl₀ =>
      ⟨l₀, mem_append_left _ hl₀, rfl, rfl, rfl, Nat.le_refl _⟩
  · exact ⟨_, mem_append_right _ (mem_singleton.mpr rfl), rfl, rfl,
      Nat.lt_succ_self _⟩

/-- What a record has to be for a lineage with a key. -/
structure Importable (record : RepositoryRecord) (key : CanonicalKey) : Prop where
  owner : record.ownerId = key.ownerId
  source : record.source = githubSource
  kind : record.revisionKind = gitKind
  branch : validateBranch record.branch = .ok record.branch
  commit : ∃ sha, record.revisionValue = some (text sha)
  url : ∃ url source, record.sourceUrl = some url ∧ matchesGithub url = true ∧
    canonicalGithubSource url = some source ∧ key.canonicalSourceKey = text source

/-- A record that is added to a lineage is a member of it. -/
theorem Importable.member (h : Importable record key) (hkey : l'.key = key)
    (hn : l.nextSequence < l'.nextSequence) : Member (record.inLineage l) l' where
  owner := (congrArg CanonicalKey.ownerId hkey).trans h.owner.symm
  source := h.source
  kind := h.kind
  branch := h.branch
  commit := h.commit
  url := by
    rcases h.url with ⟨url, source, hurl, hmatch, hsource, hsame⟩
    exact ⟨url, source, hurl, hmatch, hsource,
      (congrArg CanonicalKey.canonicalSourceKey hkey).trans hsame⟩
  sequence := ⟨_, rfl, hn⟩

/-- An import into a lineage whose members have lesser sequences keeps the invariant. -/
theorem consistent_added {nextUuid : Nat} {lineages : List RepositoryLineage} (hs : Consistent s)
    (ha : Advanced s l key nextUuid lineages) (huuid : s.nextUuid ≤ nextUuid)
    (hrecord : Importable record key) (hid : record.id < s.nextUuid)
    (hnew : ∀ r ∈ s.repositories, r.id ≠ record.id)
    (hless : ∀ r ∈ s.repositories, r.lineageId = some l.id → r.sequence ≠ some l.nextSequence) :
    Consistent
      { lineages := lineages
        repositories := s.repositories ++ [record.inLineage l]
        nextUuid := nextUuid } := by
  refine ⟨?_, ha.uuids, ?_, ha.ids, ha.keys, ?_, ?_⟩
  · intro r hr
    rcases mem_append.mp hr with hr | hr
    · exact Nat.lt_of_lt_of_le (hs.uuids r hr) huuid
    · rw [mem_singleton.mp hr]
      exact Nat.lt_of_lt_of_le hid huuid
  · rw [map_append]
    refine nodup_append.mpr ⟨hs.ids, nodup_singleton _, ?_⟩
    intro a ha b hb hab
    rcases mem_map.mp ha with ⟨r, hr, rfl⟩
    exact hnew r hr (hab.trans (mem_singleton.mp hb))
  · intro r hr lineageId hlineage
    rcases mem_append.mp hr with hr | hr
    · rcases hs.members r hr lineageId hlineage with ⟨l₀, hl₀, hid₀, hmember⟩
      rcases ha.kept l₀ hl₀ with ⟨l', hl', hid', howner, hsource, hnext⟩
      exact ⟨l', hl', hid'.trans hid₀, hmember.mono howner hsource hnext⟩
    · rcases ha.target with ⟨l', hl', hid', hkey, hnext⟩
      rw [mem_singleton.mp hr] at hlineage ⊢
      exact ⟨l', hl', hid'.trans (Option.some.inj hlineage), hrecord.member hkey hnext⟩
  · intro r hr r' hr' hne hsame hsequence
    rcases mem_append.mp hr with hr | hr
    · rcases mem_append.mp hr' with hr' | hr'
      · exact hs.sequences r hr r' hr' hne hsame hsequence
      · rw [mem_singleton.mp hr'] at hsame hsequence
        exact absurd hsequence (hless r hr hsame)
    · rcases mem_append.mp hr' with hr' | hr'
      · rw [mem_singleton.mp hr] at hsame hsequence
        exact absurd hsequence.symm (hless r' hr' hsame.symm)
      · rw [mem_singleton.mp hr, mem_singleton.mp hr']

/-- What `add_with_lineage` leaves, if the commit is new to the lineage. -/
theorem addWithLineage_ok (h : addWithLineage s record key displayName = .ok (added, s')) :
    added = record.inLineage (targetLineage s key displayName).1 ∧
    s' =
      { lineages := advanced s (targetLineage s key displayName).1
          (targetLineage s key displayName).2 record.id
        repositories := s.repositories ++ [added]
        nextUuid := if (targetLineage s key displayName).2 then s.nextUuid + 1
          else s.nextUuid } := by
  unfold addWithLineage at h
  dsimp only at h
  split at h
  · cases h
  · rcases Prod.mk.inj (Except.ok.inj h) with ⟨hadded, hs'⟩
    refine ⟨hadded.symm, ?_⟩
    rw [← hadded]
    exact hs'.symm

theorem consistent_addWithLineage (hs : Consistent s) (hrecord : Importable record key)
    (hid : record.id < s.nextUuid) (hnew : ∀ r ∈ s.repositories, r.id ≠ record.id)
    (h : addWithLineage s record key displayName = .ok (added, s')) : Consistent s' := by
  rcases addWithLineage_ok h with ⟨hadded, hs'⟩
  rw [hs', hadded]
  rcases targetLineage_cases s key displayName with
    ⟨l, hl, hkey, htarget⟩ | ⟨hkeys, l, huuid, hkey, hone, htarget⟩
  · rw [htarget]
    refine consistent_added hs (hkey ▸ advanced_old hs hl record.id) (Nat.le_refl _) hrecord hid
      hnew ?_
    intro r hr hlineage hsequence
    rcases hs.members r hr _ hlineage with ⟨l', hl', hid', hmember⟩
    have hsame : l' = l := Rows.eq_of_key_eq hs.lineageIds hl' hl hid'
    rcases hmember.sequence with ⟨n, hn, hlt⟩
    rw [hsame] at hlt
    have heq : n = l.nextSequence := Option.some.inj (hn.symm.trans hsequence)
    omega
  · rw [htarget]
    refine consistent_added hs (hkey ▸ advanced_new hs huuid (hkey.symm ▸ hkeys) record.id)
      (Nat.le_succ _) hrecord hid hnew ?_
    intro r hr hlineage
    rcases hs.members r hr _ hlineage with ⟨l', hl', hid', -⟩
    have hlt := hs.lineageUuids l' hl'
    have hid' : l'.id = l.id := hid'
    omega

/-- A key of a validated URL is there. -/
theorem canonicalGithubSource_matches (h : matchesGithub url = true) :
    ∃ source, canonicalGithubSource url = some source := by
  rcases matchesGithub_iff.mp h with ⟨owner, repo, tail, newline, hshape⟩
  exact ⟨_, canonicalGithubSource_shape hshape⟩

/-- The imports of a URL and a branch that are valid. -/
theorem consistent_importGithubRevision {remote : Remote} (hs : Consistent s)
    (hurl : matchesGithub url = true) (hbranch : validateBranch branch = .ok branch) :
    Consistent (importGithubRevision refusal s ownerId url branch remote).2 := by
  rcases canonicalGithubSource_matches hurl with ⟨source, hsource⟩
  have hfresh := consistent_fresh hs
  unfold importGithubRevision
  split
  · exact hfresh
  · split
    · exact hfresh
    · rename_i sha ref hrevision
      split
      · exact hfresh
      · rw [hsource]
        dsimp only
        unfold answered
        split
        · exact hfresh
        · rename_i added s' hadd
          refine consistent_addWithLineage hfresh ?_ (Nat.lt_succ_self _) ?_ hadd
          · exact ⟨rfl, rfl, rfl, hbranch, ⟨sha, rfl⟩, url, source, rfl, hurl, hsource, rfl⟩
          · intro r hr
            exact Nat.ne_of_lt (hs.uuids r hr)

theorem consistent_importGithubRepository (hs : Consistent s) :
    Consistent (importGithubRepository refusal s ownerId url branch remotes).2 := by
  unfold importGithubRepository
  split
  · exact hs
  · rename_i valid hvalid
    split
    · exact hs
    · rename_i branch' hbranch
      exact consistent_importGithubRevision hs (matches_of_validatePublicUrl hvalid)
        (validateBranch_again hbranch)

theorem consistent_importUploadedRepository {name contentHash : Str} (hs : Consistent s) :
    Consistent (importUploadedRepository s ownerId name contentHash).2 := by
  have hfresh := consistent_fresh hs
  unfold importUploadedRepository
  split
  · exact hfresh
  · refine ⟨?_, hfresh.lineageUuids, ?_, hs.lineageIds, hs.keys, ?_, ?_⟩
    · intro r hr
      rcases mem_append.mp hr with hr | hr
      · exact hfresh.uuids r hr
      · rw [mem_singleton.mp hr]
        exact Nat.lt_succ_self _
    · rw [map_append]
      refine nodup_append.mpr ⟨hs.ids, nodup_singleton _, ?_⟩
      intro a ha b hb hab
      rcases mem_map.mp ha with ⟨r, hr, rfl⟩
      have hlt := hs.uuids r hr
      have hb : b = s.nextUuid := mem_singleton.mp hb
      omega
    · intro r hr lineageId hlineage
      rcases mem_append.mp hr with hr | hr
      · exact hs.members r hr lineageId hlineage
      · rw [mem_singleton.mp hr] at hlineage
        cases hlineage
    · intro r hr r' hr' hne hsame hsequence
      rcases mem_append.mp hr with hr | hr
      · rcases mem_append.mp hr' with hr' | hr'
        · exact hs.sequences r hr r' hr' hne hsame hsequence
        · rw [mem_singleton.mp hr'] at hsame
          exact absurd hsame hne
      · rw [mem_singleton.mp hr] at hne
        exact absurd rfl hne

/-- A deletion leaves the other records. -/
theorem consistent_filter (hs : Consistent s) (kept : RepositoryRecord → Bool) :
    Consistent { s with repositories := s.repositories.filter kept } where
  uuids := fun r hr => hs.uuids r (mem_of_mem_filter hr)
  lineageUuids := hs.lineageUuids
  ids := hs.ids.sublist (filter_sublist.map _)
  lineageIds := hs.lineageIds
  keys := hs.keys
  members := fun r hr => hs.members r (mem_of_mem_filter hr)
  sequences := fun r hr r' hr' =>
    hs.sequences r (mem_of_mem_filter hr) r' (mem_of_mem_filter hr')

/-- It writes the pointer of a lineage, and nothing else of it. -/
theorem consistent_repointed (hs : Consistent s) (lineageId : Nat) (latest : Option (Option Nat)) :
    Consistent { s with lineages := Lineage.repointedLineages s.lineages lineageId latest } := by
  cases latest with
  | none => exact hs
  | some latest =>
    have hids : ∀ l : RepositoryLineage, decide (l.id = lineageId) = true →
        (l.repoint latest).id = l.id := fun _ _ => rfl
    have hkeys : ∀ l : RepositoryLineage, decide (l.id = lineageId) = true →
        (l.repoint latest).key = l.key := fun _ _ => rfl
    refine ⟨hs.uuids, ?_, hs.ids, ?_, ?_, ?_, hs.sequences⟩
    · intro l hl
      rcases Rows.mem_updateWhere.mp hl with ⟨hmem, -⟩ | ⟨l₀, hmem, -, heq⟩
      · exact hs.lineageUuids l hmem
      · rw [heq]
        exact hs.lineageUuids l₀ hmem
    · exact (Rows.map_updateWhere hids s.lineages).symm ▸ hs.lineageIds
    · exact (Rows.map_updateWhere hkeys s.lineages).symm ▸ hs.keys
    · intro r hr i hlineage
      rcases hs.members r hr i hlineage with ⟨l, hl, hid, hmember⟩
      refine ⟨_, Rows.mem_updateWhere_of_mem hl, ?_⟩
      by_cases hsame : decide (l.id = lineageId) = true
      · rw [if_pos hsame]
        exact ⟨hid, hmember.mono rfl rfl (Nat.le_refl _)⟩
      · rw [if_neg hsame]
        exact ⟨hid, hmember⟩

theorem consistent_deleteRepository (hs : Consistent s) :
    Consistent (deleteRepository s repositoryId ownerId).2 := by
  unfold deleteRepository
  split
  · exact hs
  · rename_i record hrecord
    dsimp only
    split
    · exact consistent_filter hs _
    · exact consistent_filter (consistent_repointed hs _ _) _

theorem consistent_reanalyseRepository (hs : Consistent s) :
    Consistent (reanalyseRepository refusal s repositoryId ownerId remotes).2 := by
  unfold reanalyseRepository
  split
  · exact hs
  · rename_i record hrecord
    split
    · rename_i sourceUrl hsource hurl
      dsimp only
      split
      · exact hs
      · rename_i url hvalid
        split
        · exact hs
        · rename_i branch hbranch
          have himport : Consistent
              (importGithubRevision refusal s ownerId url branch (remotes url)).2 :=
            consistent_importGithubRevision hs (matches_of_validatePublicUrl hvalid)
              (validateBranch_again hbranch)
          split
          · exact hs
          · exact hs
          · split
            · exact hs
            · exact himport
    · exact hs

/-- Every request keeps the invariant. -/
theorem consistent_of_reachable (h : service.Reachable s) : Consistent s := by
  refine StepSystem.reachableBy_invariant ?_ ?_ h
  · rintro s rfl
    exact ⟨fun _ hr => absurd hr not_mem_nil, fun _ hl => absurd hl not_mem_nil,
      nodup_nil, nodup_nil, nodup_nil, fun _ hr => absurd hr not_mem_nil,
      fun _ hr => absurd hr not_mem_nil⟩
  · intro s request s' hs _ hstep
    cases hstep
    unfold handle
    cases request.operation with
    | importGithub ownerId url branch => exact consistent_importGithubRepository hs
    | importUpload ownerId name contentHash => exact consistent_importUploadedRepository hs
    | reanalyse repositoryId ownerId => exact consistent_reanalyseRepository hs
    | delete repositoryId ownerId => exact consistent_deleteRepository hs

end Invariant

section Urls

variable {url v : Str}

/-- A validated URL determines its key, up to case, and its key is as long as what follows the
    name of the site. -/
theorem canonicalGithubSource_length {source : Str} (h : matchesGithub url = true)
    (hsource : canonicalGithubSource url = some source) : source.length + 8 = url.length := by
  rcases matchesGithub_iff.mp h with ⟨owner, repo, tail, newline, hshape⟩
  rw [canonicalGithubSource_shape hshape] at hsource
  have horigin : origin.length = 19 := by decide
  have hsite : site.length = 11 := by decide
  rw [← Option.some.inj hsource, hshape.eq]
  simp only [sourceKey, Github.lower, length_append, length_cons, length_map, horigin,
    hsite]
  omega

theorem isPrefix_of_validatePublicUrl (h : validatePublicUrl url = .ok v) : v <+: url := by
  have hstrip : Egress.rstripSlashes url <+: url := by
    have hsuffix := reverse_prefix.mpr
      (dropWhile_suffix (l := url.reverse) (fun c => decide (c = '/')))
    rwa [reverse_reverse] at hsuffix
  have hremove : removeGit (Egress.rstripSlashes url) <+: Egress.rstripSlashes url := by
    unfold removeGit
    split
    · exact take_prefix _ _
    · exact prefix_refl _
  unfold validatePublicUrl at h
  dsimp only at h
  split at h
  · cases h
    exact hremove.trans hstrip
  · cases h

/-- Validating a URL again keeps its key only if it keeps the URL. -/
theorem canonicalGithubSource_validated (h : matchesGithub url = true)
    (hv : validatePublicUrl url = .ok v)
    (hsame : canonicalGithubSource v = canonicalGithubSource url) : v = url := by
  rcases canonicalGithubSource_matches h with ⟨source, hsource⟩
  have hlength := canonicalGithubSource_length h hsource
  have hlength' := canonicalGithubSource_length (matches_of_validatePublicUrl hv)
    (hsame.trans hsource)
  exact (isPrefix_of_validatePublicUrl hv).eq_of_length (by omega)

end Urls

section Outcomes

variable {s : State} {r latest : RepositoryRecord} {l : RepositoryLineage}
  {refusal : Str → Option String} {remotes : Str → Remote} {v head : Str}

/-- The newest member of a lineage. -/
structure Newest (s : State) (l : RepositoryLineage) (latest : RepositoryRecord) : Prop where
  mem : latest ∈ s.repositories
  member : latest.lineageId = some l.id
  newest : ∀ r ∈ s.repositories, r.lineageId = some l.id →
    r.sequence.getD 0 ≤ latest.sequence.getD 0

/-- Re-analysis of `r` asks at the URL `v`, and is answered with the commit `head`. -/
structure Asked (remotes : Str → Remote) (r : RepositoryRecord) (v head : Str) : Prop where
  url : ∃ url, r.sourceUrl = some url ∧ validatePublicUrl url = .ok v
  head : (remotes v).refs (askedRef (remotes v) r.branch) = some head

theorem getRecord_mem (hs : Consistent s) (hr : r ∈ s.repositories) :
    getRecord s r.id r.ownerId = .ok r := by
  have hfind : s.repositories.find? (fun r' => decide (r'.id = r.id)) = some r :=
    (Rows.find?_eq_some hs.ids).mpr ⟨hr, rfl⟩
  rw [getRecord, hfind]
  exact if_pos rfl

/-- The lineage of a member. -/
theorem member_of_mem (hs : Consistent s) (hr : r ∈ s.repositories) (hl : l ∈ s.lineages)
    (hm : r.lineageId = some l.id) : Member r l := by
  rcases hs.members r hr l.id hm with ⟨l', hl', hid, hmember⟩
  rwa [Rows.eq_of_key_eq hs.lineageIds hl' hl hid] at hmember

/-- The newest member is the one that re-analysis compares with. -/
theorem latestInLineage_eq (hs : Consistent s) (hr : r ∈ s.repositories) (hl : l ∈ s.lineages)
    (hm : r.lineageId = some l.id) (hlatest : Newest s l latest) :
    latestInLineage s r r.ownerId = latest := by
  have howner : latest.ownerId = r.ownerId :=
    (member_of_mem hs hlatest.mem hl hlatest.member).owner.symm.trans
      (member_of_mem hs hr hl hm).owner
  have hmem : latest ∈ listLineageMembers s l.id r.ownerId :=
    SortKeys.mem_sortBy.mpr (mem_filter.mpr
      ⟨hlatest.mem, decide_eq_true ⟨hlatest.member, howner⟩⟩)
  have hpairs := SortKeys.pairwise_sortBy (fun r : RepositoryRecord =>
    OrderDual.toDual (r.sequence.getD 0)) (s.repositories.filter (fun r' =>
      r'.lineageId = some l.id ∧ r'.ownerId = r.ownerId))
  rw [latestInLineage, hm]
  dsimp only
  cases hlist : listLineageMembers s l.id r.ownerId with
  | nil =>
    rw [hlist] at hmem
    cases hmem
  | cons first rest =>
    have hfirst : first ∈ listLineageMembers s l.id r.ownerId :=
      hlist ▸ mem_cons_self
    rcases mem_filter.mp (SortKeys.mem_sortBy.mp hfirst) with ⟨hfirst, hcond⟩
    have hlineage := (of_decide_eq_true hcond).1
    have hge : latest.sequence.getD 0 ≤ first.sequence.getD 0 := by
      rw [hlist] at hmem
      rcases mem_cons.mp hmem with heq | hrest
      · rw [heq]
      · have hpair : (first :: rest).Pairwise (fun a b : RepositoryRecord =>
            OrderDual.toDual (a.sequence.getD 0) ≤ OrderDual.toDual (b.sequence.getD 0)) :=
          hlist ▸ hpairs
        exact (pairwise_cons.mp hpair).1 latest hrest
    have hle := hlatest.newest first hfirst hlineage
    rcases (member_of_mem hs hfirst hl hlineage).sequence with ⟨n, hn, -⟩
    rcases (member_of_mem hs hlatest.mem hl hlatest.member).sequence with ⟨n', hn', -⟩
    refine hs.sequences first hfirst latest hlatest.mem ?_ ?_ ?_
    · rw [hlineage]
      exact Option.some_ne_none _
    · rw [hlineage, hlatest.member]
    · rw [hn, hn'] at hle hge ⊢
      have hsame : n = n' := le_antisymm hle hge
      rw [hsame]

/-- Re-analysis of a member, up to its request. -/
theorem reanalyseRepository_eq (hs : Consistent s) (hr : r ∈ s.repositories)
    (hl : l ∈ s.lineages) (hm : r.lineageId = some l.id) (hlatest : Newest s l latest)
    (hasked : Asked remotes r v head) :
    reanalyseRepository refusal s r.id r.ownerId remotes =
      if latest.revisionValue = some (text head) then (.ok (.alreadyCurrent latest head), s)
      else imported latest head
        (importGithubRevision refusal s r.ownerId v r.branch (remotes v)) := by
  have hmember := member_of_mem hs hr hl hm
  have hkind := (member_of_mem hs hlatest.mem hl hlatest.member).kind
  rcases hasked.url with ⟨url, hurl, hv⟩
  have hgiven : r.sourceUrl.filter (fun u => !u.isEmpty) = some url := by
    rw [hurl]
    rcases hmember.url with ⟨url', -, hurl', hmatch, -, -⟩
    have hsame : url' = url := Option.some.inj (hurl'.symm.trans hurl)
    cases url with
    | nil =>
      rw [hsame] at hmatch
      cases hmatch
    | cons c u => rfl
  unfold reanalyseRepository
  rw [getRecord_mem hs hr]
  dsimp only
  rw [decide_eq_true hmember.source, hgiven]
  dsimp only
  rw [hv]
  dsimp only
  rw [hmember.branch]
  dsimp only
  rw [readRemoteHeadCommit_eq, hasked.head, latestInLineage_eq hs hr hl hm hlatest]
  dsimp only
  by_cases hcurrent : latest.revisionValue = some (text head)
  · rw [if_pos ⟨hkind, hcurrent⟩, if_pos hcurrent]
  · rw [if_neg (fun h => hcurrent h.2), if_neg hcurrent]

variable (refusal) in
/-- Without an answer there is an error that is no conflict. -/
theorem reanalyseRepository_unasked (hs : Consistent s) (hr : r ∈ s.repositories)
    (hl : l ∈ s.lineages) (hm : r.lineageId = some l.id)
    (hasked : ∀ v head, ¬ Asked remotes r v head) :
    ∃ e, (reanalyseRepository refusal s r.id r.ownerId remotes).1 = .error e ∧
      ∀ message id detail, e ≠ .conflict message id detail := by
  have hmember := member_of_mem hs hr hl hm
  rcases hmember.url with ⟨url, source, hurl, hmatch, -, -⟩
  have hgiven : r.sourceUrl.filter (fun u => !u.isEmpty) = some url := by
    rw [hurl]
    cases url with
    | nil => cases hmatch
    | cons c u => rfl
  unfold reanalyseRepository
  rw [getRecord_mem hs hr]
  dsimp only
  rw [decide_eq_true hmember.source, hgiven]
  dsimp only
  cases hv : validatePublicUrl url with
  | error e => exact ⟨_, rfl, fun _ _ _ h => by cases h⟩
  | ok v =>
    dsimp only
    rw [hmember.branch]
    dsimp only
    rw [readRemoteHeadCommit_eq]
    cases hhead : (remotes v).refs (askedRef (remotes v) r.branch) with
    | none => exact ⟨_, rfl, fun _ _ _ h => by cases h⟩
    | some head => exact absurd ⟨⟨url, hurl, hv⟩, hhead⟩ (hasked v head)

/-- The import of what was asked for. -/
theorem importGithubRevision_asked {ownerId : Nat} {url source : Str} {branch : Option Str}
    {remote : Remote} (hsource : canonicalGithubSource url = some source)
    (hhead : remote.refs (askedRef remote branch) = some head) :
    importGithubRevision refusal s ownerId url branch remote =
      match refusal head with
      | some message => (.error (.validation message), fresh s)
      | none =>
        answered (fresh s) (addWithLineage (fresh s)
          (githubRecord s.nextUuid ownerId url branch head (askedRef remote branch))
          (keyOf ownerId source (askedRef remote branch)) (repositoryName url)) := by
  rcases gitRevision_asked hhead with ⟨clone, hclone, hrevision⟩
  unfold importGithubRevision
  rw [hclone]
  dsimp only
  rw [hrevision]
  dsimp only
  rw [hsource]

/-- A member of a lineage has the commit. -/
def HasCommit (s : State) (l : RepositoryLineage) (sha : Str) : Prop :=
  ∃ m ∈ s.repositories, m.lineageId = some l.id ∧ m.revisionValue = some (text sha)

variable {record : RepositoryRecord} {key : CanonicalKey} {sha displayName : Str}

/-- What an import into a lineage that is there does. -/
theorem addWithLineage_old (displayName : Str) (hs : Consistent s) (hl : l ∈ s.lineages)
    (hkey : l.key = key) (hsha : record.revisionValue = some (text sha)) :
    (HasCommit s l sha → ∃ existing, addWithLineage s record key displayName = .error existing) ∧
      (¬ HasCommit s l sha → addWithLineage s record key displayName =
        .ok (record.inLineage l,
          { lineages := Rows.updateWhere (fun l' => l'.id = l.id)
              (RepositoryLineage.advance record.id) s.lineages
            repositories := s.repositories ++ [record.inLineage l]
            nextUuid := s.nextUuid })) := by
  have htarget : targetLineage s key displayName = (l, false) := by
    rcases targetLineage_cases s key displayName with ⟨l', hl', hkey', htarget⟩ | ⟨hnone, -⟩
    · rw [htarget, Rows.eq_of_key_eq hs.keys hl' hl (hkey'.trans hkey.symm)]
    · exact absurd hkey (hnone l hl)
  unfold addWithLineage
  rw [htarget]
  dsimp only
  cases hfind : s.repositories.find? (fun r => r.lineageId = some l.id ∧
      r.revisionValue = record.revisionValue) with
  | some existing =>
    refine ⟨fun _ => ⟨existing, rfl⟩, fun hnone => absurd ?_ hnone⟩
    have hfound := List.find?_some hfind
    rcases of_decide_eq_true hfound with ⟨hlineage, hcommit⟩
    exact ⟨existing, mem_of_find?_eq_some hfind, hlineage, hcommit.trans hsha⟩
  | none =>
    refine ⟨fun hsome => ?_, fun _ => rfl⟩
    rcases hsome with ⟨m, hm, hlineage, hcommit⟩
    exact absurd (decide_eq_true ⟨hlineage, hcommit.trans hsha.symm⟩)
      (List.find?_eq_none.mp hfind m hm)

/-- A lineage with another key is another lineage. -/
theorem addWithLineage_other {added : RepositoryRecord} {s' : State} (hs : Consistent s)
    (hl : l ∈ s.lineages) (hkey : l.key ≠ key)
    (h : addWithLineage s record key displayName = .ok (added, s')) :
    added.lineageId ≠ some l.id := by
  rw [(addWithLineage_ok h).1]
  intro hid
  have hid : (targetLineage s key displayName).1.id = l.id := Option.some.inj hid
  rcases targetLineage_cases s key displayName with
    ⟨l', hl', hkey', htarget⟩ | ⟨-, l', huuid, -, -, htarget⟩
  · rw [htarget] at hid
    exact hkey (Rows.eq_of_key_eq hs.lineageIds hl' hl hid ▸ hkey')
  · rw [htarget] at hid
    have hlt := hs.lineageUuids l hl
    have hid : l'.id = l.id := hid
    omega

/-- A conflict names a member of the lineage with the key that has the commit. -/
theorem addWithLineage_error {existing : RepositoryRecord} (hs : Consistent s)
    (hsha : record.revisionValue = some (text sha))
    (h : addWithLineage s record key displayName = .error existing) :
    ∃ l ∈ s.lineages, l.key = key ∧ HasCommit s l sha := by
  unfold addWithLineage at h
  dsimp only at h
  split at h
  · rename_i found hfind
    have hmem := mem_of_find?_eq_some hfind
    have hfound := List.find?_some hfind
    rcases of_decide_eq_true hfound with ⟨hlineage, hcommit⟩
    rcases hs.members found hmem _ hlineage with ⟨l', hl', hid', -⟩
    rcases targetLineage_cases s key displayName with
      ⟨l, hl, hkey, htarget⟩ | ⟨-, l, huuid, -, -, htarget⟩
    · rw [htarget] at hlineage
      exact ⟨l, hl, hkey, found, hmem, hlineage, hcommit.trans hsha⟩
    · rw [htarget] at hid'
      have hlt := hs.lineageUuids l' hl'
      have hid' : l'.id = l.id := hid'
      omega
  · cases h

end Outcomes

section Main

/-- What re-analysis is to do, if the ref of the lineage is at `sha`: say that the latest
    member is current iff it has that commit; raise a conflict and change no row if an older
    member has it; and else import one new record, which becomes the newest member of this
    lineage, and change no other lineage. -/
def StaysInLineage (s : State) (l : RepositoryLineage) (latest : RepositoryRecord) (sha : Str)
    (result : Except ServiceError Response × State) : Prop :=
  (latest.revisionValue = some (text sha) →
      result.1 = .ok (.alreadyCurrent latest sha) ∧ result.2.lineages = s.lineages ∧
        result.2.repositories = s.repositories) ∧
    (latest.revisionValue ≠ some (text sha) → HasCommit s l sha →
      (∃ message id detail, result.1 = .error (.conflict message id detail)) ∧
        result.2.lineages = s.lineages ∧ result.2.repositories = s.repositories) ∧
    (¬ HasCommit s l sha →
      ∃ record, result.1 = .ok (.revisionImported record sha latest.id) ∧
        record.revisionValue = some (text sha) ∧ record.lineageId = some l.id ∧
        result.2.repositories = s.repositories ++ [record] ∧
        (∀ m ∈ s.repositories, m.lineageId = some l.id →
          m.sequence.getD 0 < record.sequence.getD 0) ∧
        result.2.lineages = Rows.updateWhere (fun l' => l'.id = l.id)
          (RepositoryLineage.advance record.id) s.lineages)

/-- When it does: what is asked for has an answer, and either the latest member has both that
    commit and the one of the lineage's ref; or it does not have the answer, the answer is
    not refused, and what is asked for is the ref of this lineage, or else an older member has
    the commit of this lineage's ref and the lineage of what is asked for has the answer. -/
def Follows (refusal : Str → Option String) (remotes : Str → Remote) (s : State)
    (l : RepositoryLineage) (r latest : RepositoryRecord) (sha : Str) : Prop :=
  ∃ v head source, Asked remotes r v head ∧ canonicalGithubSource v = some source ∧
    (latest.revisionValue = some (text head) ∧ latest.revisionValue = some (text sha) ∨
      latest.revisionValue ≠ some (text head) ∧ refusal head = none ∧
        (l.key = keyOf r.ownerId source (askedRef (remotes v) r.branch) ∨
          latest.revisionValue ≠ some (text sha) ∧ HasCommit s l sha ∧
            ∃ l' ∈ s.lineages,
              l'.key = keyOf r.ownerId source (askedRef (remotes v) r.branch) ∧
                HasCommit s l' head))

variable {s : State} {r latest : RepositoryRecord} {l : RepositoryLineage}
  {refusal : Str → Option String} {remotes : Str → Remote} {url sha : Str}

/-- The latest member has its own commit. -/
theorem HasCommit.of_latest (hlatest : Newest s l latest)
    (h : latest.revisionValue = some (text sha)) : HasCommit s l sha :=
  ⟨latest, hlatest.mem, hlatest.member, h⟩

/-- An error that is no conflict is never what re-analysis is to do. -/
theorem not_staysInLineage_error {result : Except ServiceError Response × State} {e : ServiceError}
    (hresult : result.1 = .error e) (he : ∀ message id detail, e ≠ .conflict message id detail) :
    ¬ StaysInLineage s l latest sha result := by
  rintro ⟨hcurrent, holder, hnew⟩
  by_cases hlatest : latest.revisionValue = some (text sha)
  · have hok := (hcurrent hlatest).1
    rw [hresult] at hok
    cases hok
  · by_cases hcommit : HasCommit s l sha
    · rcases (holder hlatest hcommit).1 with ⟨message, id, detail, hconflict⟩
      rw [hresult] at hconflict
      exact he message id detail (Except.error.inj hconflict)
    · rcases hnew hcommit with ⟨record, hok, -⟩
      rw [hresult] at hok
      cases hok

variable {v head displayName : Str} {record : RepositoryRecord}

/-- There is one answer. -/
theorem Asked.unique {v' head' : Str} (h : Asked remotes r v head) (h' : Asked remotes r v' head') :
    v = v' ∧ head = head' := by
  rcases h.url with ⟨u, hu, hv⟩
  rcases h'.url with ⟨u', hu', hv'⟩
  have hsame : u = u' := Option.some.inj (hu.symm.trans hu')
  rw [← hsame] at hv'
  have hvs : v = v' := Except.ok.inj (hv.symm.trans hv')
  have hhead' := h'.head
  rw [← hvs] at hhead'
  exact ⟨hvs, Option.some.inj (h.head.symm.trans hhead')⟩

/-- A lineage with the key of what is asked for has the ref that is asked for. -/
theorem head_eq_of_key {source : Str} (hs : Consistent s) (hr : r ∈ s.repositories)
    (hl : l ∈ s.lineages) (hm : r.lineageId = some l.id) (hurl : r.sourceUrl = some url)
    (hsha : (remotes url).refs l.canonicalBranch.toList = some sha)
    (hasked : Asked remotes r v head) (hsource : canonicalGithubSource v = some source)
    (hkey : l.key = keyOf r.ownerId source (askedRef (remotes v) r.branch)) : head = sha := by
  rcases (member_of_mem hs hr hl hm).url with ⟨url', key, hurl', hmatch, hkey', hcolumn⟩
  have hsame : url' = url := Option.some.inj (hurl'.symm.trans hurl)
  rw [hsame] at hmatch hkey'
  have hsources : key = source :=
    text_injective (hcolumn.symm.trans (congrArg CanonicalKey.canonicalSourceKey hkey))
  have href : l.canonicalBranch = text (askedRef (remotes v) r.branch) :=
    congrArg CanonicalKey.canonicalBranch hkey
  rcases hasked.url with ⟨u, hu, hv⟩
  have hu : u = url := Option.some.inj (hu.symm.trans hurl)
  rw [hu] at hv
  have hvurl : v = url :=
    canonicalGithubSource_validated hmatch hv (hsource.trans ((hkey'.trans (hsources ▸ rfl)).symm))
  rw [href, text, String.toList_ofList, ← hvurl] at hsha
  exact Option.some.inj (hasked.head.symm.trans hsha)

/-- The answer that nothing has moved is right iff the lineage's ref has not moved. -/
theorem stays_current_iff (hlatest : Newest s l latest)
    (hhead : latest.revisionValue = some (text head)) :
    StaysInLineage s l latest sha (.ok (.alreadyCurrent latest head), s) ↔
      latest.revisionValue = some (text sha) := by
  constructor
  · rintro ⟨-, holder, hnew⟩
    by_contra hmoved
    by_cases hcommit : HasCommit s l sha
    · rcases (holder hmoved hcommit).1 with ⟨message, id, detail, hconflict⟩
      cases hconflict
    · rcases hnew hcommit with ⟨record, hok, -⟩
      cases Except.ok.inj hok
  · intro hsame
    have hhead : head = sha := text_inj.mp (Option.some.inj (hhead.symm.trans hsame))
    refine ⟨fun _ => ⟨by rw [hhead], rfl, rfl⟩, fun hne => absurd hsame hne, fun hnone => ?_⟩
    exact absurd (HasCommit.of_latest hlatest hsame) hnone

/-- An import of the lineage's own ref is what re-analysis is to do. -/
theorem stays_own (hs : Consistent s) (hl : l ∈ s.lineages)
    (hrecord : record.revisionValue = some (text sha))
    (hmoved : latest.revisionValue ≠ some (text sha)) :
    StaysInLineage s l latest sha (imported latest sha
      (answered (fresh s) (addWithLineage (fresh s) record l.key displayName))) := by
  rcases addWithLineage_old displayName (consistent_fresh hs) hl rfl hrecord with
    ⟨holder, hnew⟩
  refine ⟨fun hsame => absurd hsame hmoved, fun _ hcommit => ?_, fun hnone => ?_⟩
  · rcases holder hcommit with ⟨existing, herror⟩
    rw [herror]
    exact ⟨⟨_, _, _, rfl⟩, rfl, rfl⟩
  · rw [hnew hnone]
    refine ⟨record.inLineage l, rfl, hrecord, rfl, rfl, ?_, rfl⟩
    intro m hm hlineage
    rcases (member_of_mem hs hm hl hlineage).sequence with ⟨n, hn, hlt⟩
    rw [hn]
    exact hlt

/-- An import of another ref is what re-analysis is to do iff both lineages have the commits. -/
theorem stays_other_iff {key : CanonicalKey} (hs : Consistent s) (hl : l ∈ s.lineages)
    (hkey : l.key ≠ key) (hrecord : record.revisionValue = some (text head)) :
    StaysInLineage s l latest sha (imported latest head
        (answered (fresh s) (addWithLineage (fresh s) record key displayName))) ↔
      latest.revisionValue ≠ some (text sha) ∧ HasCommit s l sha ∧
        ∃ l' ∈ s.lineages, l'.key = key ∧ HasCommit s l' head := by
  constructor
  · rintro ⟨hcurrent, holder, hnew⟩
    cases hadd : addWithLineage (fresh s) record key displayName with
    | error existing =>
      rw [hadd] at hcurrent holder hnew
      have hmoved : latest.revisionValue ≠ some (text sha) := by
        intro hsame
        cases (hcurrent hsame).1
      have hfound : ∃ l' ∈ (fresh s).lineages, l'.key = key ∧ HasCommit (fresh s) l' head :=
        addWithLineage_error (consistent_fresh hs) hrecord hadd
      refine ⟨hmoved, ?_, hfound⟩
      by_contra hnone
      rcases hnew hnone with ⟨record, hok, -⟩
      cases hok
    | ok added =>
      rw [hadd] at hcurrent holder hnew
      have hmoved : latest.revisionValue ≠ some (text sha) := by
        intro hsame
        cases Except.ok.inj (hcurrent hsame).1
      have hother : added.1.lineageId ≠ some l.id :=
        addWithLineage_other (consistent_fresh hs) hl hkey hadd
      by_cases hcommit : HasCommit s l sha
      · rcases (holder hmoved hcommit).1 with ⟨message, id, detail, hconflict⟩
        cases hconflict
      · rcases hnew hcommit with ⟨record, hok, -, hlineage, -⟩
        have hsame : added.1 = record := by
          cases Except.ok.inj hok
          rfl
        rw [hsame] at hother
        exact absurd hlineage hother
  · rintro ⟨hmoved, hcommit, l', hl', hkey', hcommit'⟩
    rcases (addWithLineage_old displayName (consistent_fresh hs) hl' hkey'
      hrecord).1 hcommit' with ⟨existing, herror⟩
    rw [herror]
    exact ⟨fun hsame => absurd hsame hmoved, fun _ _ => ⟨⟨_, _, _, rfl⟩, rfl, rfl⟩,
      fun hnone => absurd hcommit hnone⟩

/-- Re-analysis of a member of a lineage stays in the lineage exactly if it follows its ref. -/
theorem reanalyse_stays_iff (h : service.Reachable s) (hr : r ∈ s.repositories)
    (hl : l ∈ s.lineages) (hm : r.lineageId = some l.id) (hlatest : Newest s l latest)
    (hurl : r.sourceUrl = some url)
    (hsha : (remotes url).refs l.canonicalBranch.toList = some sha) :
    StaysInLineage s l latest sha (reanalyseRepository refusal s r.id r.ownerId remotes) ↔
      Follows refusal remotes s l r latest sha := by
  have hs := consistent_of_reachable h
  by_cases hanswer : ∃ v head, Asked remotes r v head
  · rcases hanswer with ⟨v, head, hasked⟩
    rcases hasked.url with ⟨u, -, hv⟩
    rcases canonicalGithubSource_matches (matches_of_validatePublicUrl hv) with ⟨source, hsource⟩
    rw [reanalyseRepository_eq hs hr hl hm hlatest hasked]
    -- The remote was asked: what `Follows` says of the head that it gave.
    have hfollows : Follows refusal remotes s l r latest sha ↔
        (latest.revisionValue = some (text head) ∧ latest.revisionValue = some (text sha) ∨
          latest.revisionValue ≠ some (text head) ∧ refusal head = none ∧
            (l.key = keyOf r.ownerId source (askedRef (remotes v) r.branch) ∨
              latest.revisionValue ≠ some (text sha) ∧ HasCommit s l sha ∧
                ∃ l' ∈ s.lineages,
                  l'.key = keyOf r.ownerId source (askedRef (remotes v) r.branch) ∧
                    HasCommit s l' head)) := by
      constructor
      · rintro ⟨v', head', source', hasked', hsource', hcases⟩
        rcases hasked.unique hasked' with ⟨rfl, rfl⟩
        rw [Option.some.inj (hsource.symm.trans hsource')]
        exact hcases
      · exact fun hcases => ⟨v, head, source, hasked, hsource, hcases⟩
    rw [hfollows]
    -- The newest revision has that head, or the head is imported as a revision.
    by_cases hhead : latest.revisionValue = some (text head)
    · rw [if_pos hhead, stays_current_iff hlatest hhead]
      exact ⟨fun hsame => .inl ⟨hhead, hsame⟩,
        fun hcases => hcases.elim And.right (fun hmoved => absurd hhead hmoved.1)⟩
    · rw [if_neg hhead, importGithubRevision_asked hsource hasked.head]
      cases hrefusal : refusal head with
      | some message =>
        constructor
        · intro hstays
          exact absurd hstays (not_staysInLineage_error rfl (fun _ _ _ h => by cases h))
        · rintro (⟨hsame, -⟩ | ⟨-, hnone, -⟩)
          · exact absurd hsame hhead
          · cases hnone
      | none =>
        dsimp only
        -- The import goes to the own lineage, or to another one.
        by_cases hkey : l.key = keyOf r.ownerId source (askedRef (remotes v) r.branch)
        · have hsame : head = sha := head_eq_of_key hs hr hl hm hurl hsha hasked hsource hkey
          rw [← hkey]
          rw [hsame] at hhead ⊢
          exact iff_of_true (stays_own hs hl rfl hhead) (.inr ⟨hhead, rfl, .inl rfl⟩)
        · refine (stays_other_iff hs hl hkey rfl).trans ⟨fun hboth => ?_, ?_⟩
          · exact .inr ⟨hhead, rfl, .inr hboth⟩
          · rintro (⟨hsame, -⟩ | ⟨-, -, hown | hboth⟩)
            · exact absurd hsame hhead
            · exact absurd hown hkey
            · exact hboth
  -- Nothing was asked, so the call raises.
  · have hunasked : ∀ v head, ¬ Asked remotes r v head :=
      fun v head hasked => hanswer ⟨v, head, hasked⟩
    rcases reanalyseRepository_unasked refusal hs hr hl hm hunasked with
      ⟨e, hresult, he⟩
    constructor
    · exact fun hstays => absurd hstays (not_staysInLineage_error hresult he)
    · rintro ⟨v, head, -, hasked, -⟩
      exact absurd hasked (hunasked v head)

end Main

section Samples

def sampleUrl : Str :=
  "https://github.com/o/r".toList

def firstSha : Str :=
  List.replicate 40 'a'

def secondSha : Str :=
  List.replicate 40 'b'

/-- A remote with two branches, of which `HEAD` names one. -/
def branches (main dev : Str) (hmain : isSha main = true) (hdev : isSha dev = true)
    (head : Str) (hhead : headsStart <+: head) : Remote :=
  { refs := fun ref =>
      if ref = heads "main".toList then some main
      else if ref = heads "dev".toList then some dev
      else none
    head := head
    shas := by
      intro ref c h
      split at h
      · exact Option.some.inj h ▸ hmain
      · split at h
        · exact Option.some.inj h ▸ hdev
        · cases h
    branch := hhead }

/-- `main` is the default branch. -/
def atMain : Remote :=
  branches firstSha secondSha (by decide) (by decide) (heads "main".toList)
    (List.prefix_append _ _)

/-- The default branch has changed, and nothing else. -/
def atDev : Remote :=
  branches firstSha secondSha (by decide) (by decide) (heads "dev".toList) (List.prefix_append _ _)

/-- `main` has moved, and is still the default branch. -/
def moved : Remote :=
  branches secondSha secondSha (by decide) (by decide) (heads "main".toList)
    (List.prefix_append _ _)

/-- An import of the default branch. -/
def firstImport : Request :=
  { operation := .importGithub 7 sampleUrl none
    remotes := fun _ => atMain
    refusal := fun _ => none }

def sampleLineage : RepositoryLineage :=
  { id := 1
    ownerId := 7
    canonicalSourceKey := text "github.com/o/r".toList
    canonicalBranch := text (heads "main".toList)
    displayName := text "r".toList
    latestRepositoryId := some 0
    nextSequence := 2 }

def sampleRecord : RepositoryRecord :=
  { githubRecord 0 7 sampleUrl none firstSha (heads "main".toList) with
    lineageId := some 1
    sequence := some 1 }

def afterImport : State :=
  { lineages := [sampleLineage], repositories := [sampleRecord], nextUuid := 2 }

theorem afterImport_reachable : service.Reachable afterImport := by
  have hexec : service.exec { lineages := [], repositories := [], nextUuid := 0 } [firstImport] =
      some afterImport := rfl
  exact StepSystem.reachable_of_exec rfl hexec

theorem sampleRecord_newest : Newest afterImport sampleLineage sampleRecord where
  mem := mem_singleton.mpr rfl
  member := rfl
  newest := by
    intro r hr _
    rw [mem_singleton.mp hr]

theorem reanalyse_stays_moved :
    StaysInLineage afterImport sampleLineage sampleRecord secondSha
      (reanalyseRepository (fun _ => none) afterImport 0 7 (fun _ => moved)) := by
  have hasked : Asked (fun _ => moved) sampleRecord sampleUrl secondSha :=
    ⟨⟨sampleUrl, rfl, by decide⟩, rfl⟩
  have hne : sampleRecord.revisionValue ≠ some (text secondSha) := by decide
  have hfollows : Follows (fun _ => none) (fun _ => moved) afterImport sampleLineage sampleRecord
      sampleRecord secondSha :=
    ⟨sampleUrl, secondSha, _, hasked, rfl, .inr ⟨hne, rfl, .inl rfl⟩⟩
  exact (reanalyse_stays_iff afterImport_reachable (mem_singleton.mpr rfl)
    (mem_singleton.mpr rfl) rfl sampleRecord_newest rfl rfl).mpr hfollows

/-- After the default branch has changed, re-analysis leaves the lineage. -/
theorem reanalyse_leaves :
    ¬ ∀ (s : State) (r latest : RepositoryRecord) (l : RepositoryLineage) (remotes : Str → Remote)
      (url sha : Str), service.Reachable s → r ∈ s.repositories → l ∈ s.lineages →
      r.lineageId = some l.id → Newest s l latest → r.sourceUrl = some url →
      (remotes url).refs l.canonicalBranch.toList = some sha →
      StaysInLineage s l latest sha
        (reanalyseRepository (fun _ => none) s r.id r.ownerId remotes) := by
  intro h
  have hstays := h afterImport sampleRecord sampleRecord sampleLineage (fun _ => atDev) sampleUrl
    firstSha afterImport_reachable (mem_singleton.mpr rfl) (mem_singleton.mpr rfl) rfl
    sampleRecord_newest rfl rfl
  cases (hstays.1 rfl).1

end Samples

end Reanalysis

end Partha
