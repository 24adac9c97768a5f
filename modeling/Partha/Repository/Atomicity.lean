import Partha.Repository.Imports

/-!
# Imports and Deletions are All-or-Nothing

What the operations on repositories leave on disk and in the database.

An import works on the directory and the upload of an id that no row has. `Around` says
so, whatever the import has done to the two, and every step of an import keeps it. The
handlers bring a failed import back to a state in which the rows and the directories
agree, and the commit brings a complete one there.

## Main definitions

* `Around`: The storage while an import is under way.
* `Sound`: What holds between operations.

## Theorems

* `importUploadedRepository_sound`, `importGithubRevision_sound`,
  `deleteRepository_sound`: One operation.
* `calls_atomic`: Careful calls are all-or-nothing, after any history of them.
* `calls_torn`: Calls that are not may leave a directory, an upload or a row alone.
-/

namespace Partha

namespace Imports

open Canonical (Str)
open Lineage (RepositoryLineage RepositoryRecord)
open Program List

section Assertions

/-- What holds between operations: consistency, and what an import relies on. -/
structure Sound (s : State) : Prop where
  consistent : Consistent s
  paths : ∀ row ∈ s.rows, row.localPath.repositoryId = row.record.id
  fresh : ∀ row ∈ s.rows, row.record.id < s.nextUuid

/-- The storage while an import of the id `k` is under way: the rows are those before it,
    and nothing but the directory of `k` and the uploads at `paths` has changed. -/
structure Around (rows : List RepositoryRow) (k : Nat) (paths : List UploadPath)
    (held : Option (List Entry) → Prop) (s : State) : Prop where
  same : s.rows = rows
  fresh : k < s.nextUuid
  below : ∀ row ∈ rows, row.localPath.repositoryId = row.record.id ∧ row.record.id < k
  others : ∀ id, id ≠ k →
    ((s.disk.directories id).isSome = true ↔ ∃ row ∈ rows, row.record.id = id)
  uploads : ∀ u ∈ s.disk.uploads, u.1 ∈ paths
  directory : held (s.disk.directories k)

def Absent (directory : Option (List Entry)) : Prop :=
  directory = none

def Present (directory : Option (List Entry)) : Prop :=
  directory.isSome = true

def Anyhow (_ : Option (List Entry)) : Prop :=
  True

variable {rows : List RepositoryRow} {k : Nat} {paths : List UploadPath} {s : State}
  {held held' : Option (List Entry) → Prop}

theorem Around.mono (h : Around rows k paths held s) (hheld : ∀ d, held d → held' d) :
    Around rows k paths held' s :=
  ⟨h.same, h.fresh, h.below, h.others, h.uploads, hheld _ h.directory⟩

theorem Around.anyhow (h : Around rows k paths held s) : Around rows k paths Anyhow s :=
  h.mono (fun _ _ => trivial)

/-- An import that has removed what it made leaves a sound state. -/
theorem Around.sound_absent (h : Around rows k [] Absent s) : Sound s ∧ s.rows = rows := by
  refine ⟨⟨⟨fun id => ?_, ?_⟩, fun row hrow => ?_, fun row hrow => ?_⟩, h.same⟩
  · by_cases hid : id = k
    · rw [hid, h.directory, h.same]
      constructor
      · intro hnone
        cases hnone
      · intro hrow
        rcases hrow with ⟨row, hmem, hk⟩
        have hlt := (h.below row hmem).2
        omega
    · rw [h.same]
      exact h.others id hid
  · rw [eq_nil_iff_forall_not_mem]
    intro u hu
    exact absurd (h.uploads u hu) not_mem_nil
  · rw [h.same] at hrow
    exact (h.below row hrow).1
  · rw [h.same] at hrow
    have hlt := (h.below row hrow).2
    have hk := h.fresh
    omega

/-- An import that commits leaves a sound state. -/
theorem Around.sound_added (h : Around rows k [] Present s) (row : RepositoryRow)
    (hrow : row.record.id = k) (hpath : row.localPath.repositoryId = k)
    (lineages : List RepositoryLineage) : Sound (s.setRows lineages (s.rows ++ [row])) := by
  have hmem : ∀ r, r ∈ (s.setRows lineages (s.rows ++ [row])).rows ↔ r ∈ rows ∨ r = row := by
    intro r
    change r ∈ s.rows ++ [row] ↔ _
    rw [h.same, mem_append, mem_singleton]
  refine ⟨⟨fun id => ?_, ?_⟩, fun r hr => ?_, fun r hr => ?_⟩
  · change (s.disk.directories id).isSome = true ↔ _
    by_cases hid : id = k
    · rw [hid]
      exact ⟨fun _ => ⟨row, (hmem row).mpr (.inr rfl), hrow⟩, fun _ => h.directory⟩
    · rw [h.others id hid]
      constructor
      · intro hex
        rcases hex with ⟨r, hr, he⟩
        exact ⟨r, (hmem r).mpr (.inl hr), he⟩
      · intro hex
        rcases hex with ⟨r, hr, he⟩
        rcases (hmem r).mp hr with hr | hr
        · exact ⟨r, hr, he⟩
        · rw [hr, hrow] at he
          exact absurd he.symm hid
  · change s.disk.uploads = []
    rw [eq_nil_iff_forall_not_mem]
    intro u hu
    exact absurd (h.uploads u hu) not_mem_nil
  · rcases (hmem r).mp hr with hr | hr
    · exact (h.below r hr).1
    · rw [hr, hpath, hrow]
  · change r.record.id < s.nextUuid
    have hk := h.fresh
    rcases (hmem r).mp hr with hr | hr
    · have hlt := (h.below r hr).2
      omega
    · rw [hr, hrow]
      exact hk

theorem Around.setDirectory (h : Around rows k paths held s) {d : Option (List Entry)}
    (hd : held' d) :
    Around rows k paths held' { s with disk := s.disk.setDirectory k d } := by
  refine ⟨h.same, h.fresh, h.below, fun id hid => ?_, h.uploads, ?_⟩
  · change (if id = k then d else s.disk.directories id).isSome = true ↔ _
    rw [if_neg hid]
    exact h.others id hid
  · change held' (if k = k then d else s.disk.directories k)
    rw [if_pos rfl]
    exact hd

theorem Around.setUploads (h : Around rows k paths held s) {paths' : List UploadPath}
    {uploads : List (UploadPath × List Nat)} (hu : ∀ u ∈ uploads, u.1 ∈ paths') :
    Around rows k paths' held { s with disk := { s.disk with uploads := uploads } } :=
  ⟨h.same, h.fresh, h.below, h.others, hu, h.directory⟩

variable {path : UploadPath} {E : State → Prop}

theorem Around.unlink (h : Around rows k [path] held s) :
    Around rows k [] held { s with disk := s.disk.unlink path } := by
  refine h.setUploads (fun u hu => ?_)
  rcases mem_filter.mp hu with ⟨hmem, hne⟩
  have hpath := mem_singleton.mp (h.uploads u hmem)
  rw [hpath] at hne
  simp only [ne_eq, not_true_eq_false, decide_false, Bool.false_eq_true] at hne

/-- A new id is around for an import. -/
theorem triple_newUuid :
    Triple (fun s => Sound s ∧ s.rows = rows) newUuid
      (fun k => Around rows k [] Absent) E := by
  intro s hs
  rcases hs with ⟨hsound, hrows⟩
  have hbelow : ∀ row ∈ rows, row.localPath.repositoryId = row.record.id ∧
      row.record.id < s.nextUuid := by
    intro row hrow
    rw [← hrows] at hrow
    exact ⟨hsound.paths row hrow, hsound.fresh row hrow⟩
  refine ⟨hrows, Nat.lt_succ_self _, hbelow, fun id _ => ?_, fun u hu => ?_, ?_⟩
  · rw [← hrows]
    exact hsound.consistent.directories id
  · have hnil : s.disk.uploads = [] := hsound.consistent.uploads
    rw [show u ∈ ({ s with nextUuid := s.nextUuid + 1 } : State).disk.uploads ↔
      u ∈ s.disk.uploads from Iff.rfl, hnil] at hu
    cases hu
  · -- No row has the id, so no directory has it.
    change s.disk.directories s.nextUuid = none
    rw [← Option.not_isSome_iff_eq_none]
    intro hsome
    rcases (hsound.consistent.directories s.nextUuid).mp hsome with ⟨row, hrow, he⟩
    have hlt := hsound.fresh row hrow
    omega

/-- A step of the import that only asks for another id. -/
theorem triple_newUuid_around :
    Triple (Around rows k paths held) newUuid (fun _ => Around rows k paths held) E := by
  intro s hs
  exact ⟨hs.same, Nat.lt_succ_of_lt hs.fresh, hs.below, hs.others, hs.uploads, hs.directory⟩

theorem triple_deleteUpload :
    Triple (Around rows k [path] held) (deleteUpload path)
      (fun _ => Around rows k [] held) E :=
  triple_update (fun _ hs => hs.unlink)

theorem triple_deleteRepositoryId :
    Triple (Around rows k paths held) (deleteRepositoryId k)
      (fun _ => Around rows k paths Absent) E :=
  triple_update (fun _ hs => hs.setDirectory rfl)

end Assertions

section Uploads

variable {faults : Step → Except Failure Unit} {platform : Platform} {settings : Settings}
  {rows : List RepositoryRow} {k : Nat} {paths : List UploadPath}
  {held : Option (List Entry) → Prop}

/-- If no step of the write loop raises, it can only find the upload too large, and then
    it removes it. -/
theorem saveChunks_around (hread : ∀ i, faults (.readChunk i) = .ok ())
    (hwrite : ∀ i, faults (.writeChunk i) = .ok ()) (maxSizeBytes : Nat) (path : UploadPath)
    (chunks : List (List Nat)) : ∀ i total,
    Triple (Around rows k [path] held) (saveChunks faults maxSizeBytes path chunks i total)
      (fun _ => Around rows k [path] held) (Around rows k [] held) := by
  induction chunks with
  | nil =>
    intro i total
    exact triple_check_ok (hread i) (fun _ hs => hs)
  | cons chunk rest ih =>
    intro i total
    unfold saveChunks
    refine triple_bind (Q := fun _ => Around rows k [path] held)
      (triple_check_ok (hread i) (fun _ hs => hs)) (fun _ => ?_)
    refine triple_ite (fun _ => triple_ret (fun _ hs => hs)) (fun _ => ?_)
    refine triple_ite (fun _ => ?_) (fun _ => ?_)
    · exact triple_bind triple_deleteUpload (fun _ => triple_raise (fun _ hs => hs))
    · refine triple_bind (Q := fun _ => Around rows k [path] held)
        (triple_check_ok (hwrite i) (fun _ hs => hs)) (fun _ => ?_)
      refine triple_bind (triple_update (fun s hs => ?_)) (fun _ => ih (i + 1) _)
      refine hs.setUploads (fun u hu => ?_)
      rcases mem_map.mp hu with ⟨u', hu', he⟩
      rw [← he]
      by_cases hpath : u'.1 = path
      · rw [if_pos hpath]
        exact hs.uploads u' hu'
      · rw [if_neg hpath]
        exact hs.uploads u' hu'

theorem saveUpload_around (hread : ∀ i, faults (.readChunk i) = .ok ())
    (hwrite : ∀ i, faults (.writeChunk i) = .ok ()) (file : UploadFile) (maxSizeBytes : Nat) :
    Triple (Around rows k [] held) (saveUpload faults k file maxSizeBytes)
      (fun path => Around rows k [path] held) (Around rows k [] held) := by
  unfold saveUpload
  refine triple_bind triple_check_same (fun _ => ?_)
  refine triple_bind (triple_update (fun s hs => ?_)) (fun _ =>
    triple_bind (saveChunks_around hread hwrite maxSizeBytes _ file.chunks 0 0)
      (fun _ => triple_ret (fun _ hs => hs)))
  refine hs.setUploads (fun u hu => ?_)
  rcases mem_cons.mp hu with hu | hu
  · rw [hu]
    exact mem_singleton_self _
  · exact absurd (hs.uploads u (mem_of_mem_filter hu)) not_mem_nil

variable {E : State → Prop}

theorem resetRepositoryPath_around (herror : ∀ s, Around rows k paths held s → E s) :
    Triple (Around rows k paths held) (resetRepositoryPath faults k)
      (fun _ => Around rows k paths Present) E := by
  refine triple_bind (triple_check (fun _ _ _ hs => hs) (fun _ s _ hs => herror s hs)) (fun _ => ?_)
  exact triple_update (fun _ hs => hs.setDirectory rfl)

theorem normaliseSingleRoot_id (entries : List Entry) :
    (normaliseSingleRoot k entries).repositoryId = k := by
  unfold normaliseSingleRoot
  split
  · rfl
  · rfl

theorem extractMembers_around (content : List Nat) (tar : Bool) (members : List Member) :
    Triple (Around rows k paths Present)
      (extractMembers faults platform settings k content tar members)
      (fun root s => root.repositoryId = k ∧ Around rows k paths Present s)
      (Around rows k paths Anyhow) := by
  have hcheck : ∀ outcome : Except Failure Unit, Triple (Around rows k paths Present)
      (check outcome) (fun _ => Around rows k paths Present) (Around rows k paths Anyhow) :=
    fun outcome => triple_check (fun _ _ _ hs => hs) (fun _ _ _ hs => hs.anyhow)
  unfold extractMembers
  have hwrite : ∀ entries : List Entry, Triple (ε := Failure) (Around rows k paths Present)
      (onDisk (fun d => d.setDirectory k (some entries))) (fun _ => Around rows k paths Present)
      (Around rows k paths Anyhow) :=
    fun entries => triple_update (fun _ hs => hs.setDirectory rfl)
  refine triple_bind (hcheck _) (fun _ => ?_)
  refine triple_bind (hwrite _) (fun _ => ?_)
  refine triple_bind (hcheck _) (fun _ => ?_)
  refine triple_bind (hwrite _) (fun _ => ?_)
  exact triple_ret (fun _ hs => ⟨normaliseSingleRoot_id _, hs⟩)

theorem extractArchive_around (path : UploadPath) :
    Triple (Around rows k paths held) (extractArchive faults platform settings path k)
      (fun root s => root.repositoryId = k ∧ Around rows k paths Present s)
      (Around rows k paths Anyhow) := by
  unfold extractArchive
  refine triple_bind (resetRepositoryPath_around (fun _ hs => hs.anyhow)) (fun _ => ?_)
  refine triple_bind (Q := fun _ => Around rows k paths Present)
    (triple_read (fun _ hs => hs)) (fun content => ?_)
  refine triple_handle (E := Around rows k paths Anyhow) ?_ (fun e => ?_)
  · cases platform.archive content with
    | zip members => exact extractMembers_around content false members
    | tar members => exact extractMembers_around content true members
    | unsupported => exact triple_raise (fun _ hs => hs.anyhow)
  · cases e with
    | archive => exact triple_raise (fun _ hs => hs)
    | _ => exact triple_raise (fun _ hs => hs)

/-- Parsing changes nothing. -/
theorem parseRepository_same {P : State → Prop} (root : LocalPath) :
    Triple P (parseRepository faults platform root) (fun _ => P) P := by
  unfold parseRepository
  refine triple_bind triple_check_same (fun _ => ?_)
  refine triple_bind (Q := fun _ => P) (triple_read (fun _ hs => hs)) (fun entries => ?_)
  refine triple_bind triple_check_same (fun parsed => ?_)
  exact triple_ite (fun _ => triple_raise (fun _ hs => hs)) (fun _ => triple_ret (fun _ hs => hs))

theorem unpackUpload_around (ownerId : Nat) (path : UploadPath) :
    Triple (Around rows k paths held) (unpackUpload faults platform settings ownerId k path)
      (fun unpacked s => unpacked.2.repositoryId = k ∧ Around rows k paths Present s)
      (Around rows k paths Anyhow) := by
  have hcheck : ∀ outcome : Except Failure Unit, Triple (Around rows k paths held)
      (check outcome) (fun _ => Around rows k paths held) (Around rows k paths Anyhow) :=
    fun outcome => triple_check (fun _ _ _ hs => hs) (fun _ _ _ hs => hs.anyhow)
  unfold unpackUpload
  refine triple_bind (hcheck _) (fun _ => ?_)
  refine triple_bind (Q := fun _ => Around rows k paths held)
    (triple_read (fun _ hs => hs)) (fun content => ?_)
  refine triple_bind (hcheck _) (fun _ => ?_)
  refine triple_bind (Q := fun _ => Around rows k paths held)
    (triple_read (fun _ hs => hs)) (fun _ => ?_)
  refine triple_ite (fun _ => triple_raise (fun _ hs => hs.anyhow)) (fun _ => ?_)
  refine triple_bind (extractArchive_around path) (fun root => triple_pure (fun hroot => ?_))
  refine triple_bind (Q := fun _ => Around rows k paths Present)
    ((parseRepository_same root).weaken (fun _ hs => hs) (fun _ _ hs => hs)
      (fun _ hs => hs.anyhow)) (fun _ => ?_)
  exact triple_ret (fun _ hs => ⟨hroot, hs⟩)

/-- A row of a new id and of no lineage meets the constraints. -/
theorem not_taken {row : RepositoryRow} (hk : row.record.id = k)
    (hlineage : row.record.lineageId = none) {s : State} (hs : Around rows k paths held s) :
    taken s.rows row.record = false := by
  have hnone : s.rows.any (fun r => decide (r.record.id = row.record.id)) = false := by
    rw [any_eq_false]
    intro r hr
    rw [hs.same] at hr
    have hlt := (hs.below r hr).2
    rw [hk, decide_eq_true_eq]
    omega
  rw [taken, hnone, hlineage]
  rfl

theorem add_sound (hc : CarefulUpload faults) (row : RepositoryRow) (hk : row.record.id = k)
    (hlineage : row.record.lineageId = none) (hpath : row.localPath.repositoryId = k) :
    Triple (Around rows k [] Present) (add faults row) (fun _ => Sound) E := by
  rcases hc with ⟨_, _, _, hinsert, hcommit, hrefresh, _⟩
  unfold add
  refine triple_bind (Q := fun _ => Around rows k [] Present)
    (triple_check_ok hinsert (fun _ hs => hs)) (fun _ => ?_)
  refine triple_bind (Q := fun stored s => taken stored row.record = false ∧
    Around rows k [] Present s) (triple_read (fun s hs => ⟨not_taken hk hlineage hs, hs⟩))
    (fun stored => triple_pure (fun htaken => ?_))
  rw [htaken, if_neg Bool.false_ne_true]
  refine triple_bind (Q := fun _ => Around rows k [] Present)
    (triple_check_ok hcommit (fun _ hs => hs)) (fun _ => ?_)
  refine triple_bind (Q := fun _ => Sound)
    (triple_update (fun s hs => hs.sound_added row hk hpath s.lineages)) (fun _ => ?_)
  exact triple_bind (Q := fun _ => Sound) (triple_check_ok hrefresh (fun _ hs => hs))
    (fun _ => triple_ret (fun _ hs => hs))

/-- An upload is imported, or nothing is left of it. -/
theorem importUploadedRepository_sound (hc : CarefulUpload faults) (ownerId : Nat)
    (file : UploadFile) :
    Triple (fun s => Sound s ∧ s.rows = rows)
      (importUploadedRepository faults platform settings ownerId file) (fun _ => Sound)
      (fun s => Sound s ∧ s.rows = rows) := by
  unfold importUploadedRepository
  refine triple_bind triple_newUuid (fun k => ?_)
  refine triple_bind ((saveUpload_around hc.1 hc.2.1 file _).weaken (fun _ hs => hs)
    (fun _ _ hs => hs) (fun _ hs => hs.sound_absent)) (fun path => ?_)
  refine triple_bind (triple_handle (unpackUpload_around ownerId path) (fun e => ?_))
    (fun unpacked => triple_pure (fun hroot => ?_))
  · refine triple_bind triple_deleteUpload (fun _ => ?_)
    refine triple_bind triple_deleteRepositoryId (fun _ => ?_)
    exact triple_raise (fun _ hs => hs.sound_absent)
  · refine triple_bind triple_deleteUpload (fun _ => ?_)
    refine triple_bind (Q := fun _ => Around rows k [] Present)
      (triple_check_ok hc.2.2.1 (fun _ hs => hs)) (fun _ => ?_)
    refine triple_bind (add_sound hc (uploadRow ownerId k unpacked) rfl rfl hroot)
      (fun row => ?_)
    exact triple_bind (Q := fun _ => Sound) (triple_check_ok hc.2.2.2.2.2.2 (fun _ hs => hs))
      (fun _ => triple_ret (fun _ hs => hs))

end Uploads

section Clones

variable {faults : Step → Except Failure Unit} {platform : Platform} {settings : Settings}
  {rows : List RepositoryRow} {k : Nat} {paths : List UploadPath}
  {held : Option (List Entry) → Prop}

theorem clonePublicRepository_around (answer : CloneAnswer) :
    Triple (Around rows k paths held) (clonePublicRepository faults settings k answer)
      (fun _ => Around rows k paths Present) (Around rows k paths Anyhow) := by
  have hdelete : ∀ {held' : Option (List Entry) → Prop} {e : Failure},
      Triple (Around rows k paths held') (do
        deleteRepositoryId k
        raise e : Operation Unit) (fun _ => Around rows k paths Present)
        (Around rows k paths Anyhow) :=
    triple_bind triple_deleteRepositoryId (fun _ => triple_raise (fun _ hs => hs.anyhow))
  unfold clonePublicRepository
  refine triple_bind (Q := fun _ => Around rows k paths held)
    (triple_check (fun _ _ _ hs => hs) (fun _ _ _ hs => hs.anyhow)) (fun _ => ?_)
  cases answer with
  | timedOut => exact hdelete
  | refused => exact hdelete
  | cloned entries =>
    refine triple_bind (Q := fun _ => Around rows k paths Present)
      (triple_update (fun _ hs => hs.setDirectory rfl)) (fun _ => ?_)
    exact triple_ite (fun _ => hdelete) (fun _ => triple_ret (fun _ hs => hs))

theorem repositoryRoot_id (entries : List Entry) : (repositoryRoot k entries).repositoryId = k := by
  unfold repositoryRoot
  split
  · split
    · rfl
    · rfl
  · rfl

/-- What Git answers about the revision changes nothing. -/
theorem gitRevision_same {P : State → Prop} (answers : GitAnswers) :
    Triple P (gitRevision faults answers) (fun _ => P) P := by
  unfold gitRevision
  split
  · exact triple_raise (fun _ hs => hs)
  · refine triple_bind triple_check_same (fun _ => ?_)
    split
    · exact triple_raise (fun _ hs => hs)
    · exact triple_ret (fun _ hs => hs)

theorem cloneRevision_around (answers : GitAnswers) :
    Triple (Around rows k paths held) (cloneRevision faults platform settings k answers)
      (fun clone s => clone.root.repositoryId = k ∧ Around rows k paths Present s)
      (Around rows k paths Anyhow) := by
  have hsame : ∀ {α : Type} {x : Operation α},
      Triple (Around rows k paths Present) x (fun _ => Around rows k paths Present)
        (Around rows k paths Present) →
      Triple (Around rows k paths Present) x (fun _ => Around rows k paths Present)
        (Around rows k paths Anyhow) :=
    fun h => h.weaken (fun _ hs => hs) (fun _ _ hs => hs) (fun _ hs => hs.anyhow)
  unfold cloneRevision
  refine triple_bind (clonePublicRepository_around answers.clone) (fun _ => ?_)
  refine triple_bind (hsame triple_check_same) (fun _ => ?_)
  refine triple_bind (hsame (triple_read (fun _ hs => hs))) (fun entries => ?_)
  refine triple_bind (hsame triple_check_same) (fun _ => ?_)
  refine triple_bind (hsame (gitRevision_same answers)) (fun revision => ?_)
  refine triple_bind (hsame (parseRepository_same _)) (fun _ => ?_)
  exact triple_ret (fun _ hs => ⟨repositoryRoot_id entries, hs⟩)

theorem findOrCreate_around (request : LineageRequest) (attempt : Nat) :
    Triple (Around rows k paths held) (findOrCreate faults request attempt)
      (fun _ => Around rows k paths held) (Around rows k paths held) := by
  unfold findOrCreate
  refine triple_bind triple_check_same (fun _ => ?_)
  refine triple_bind (Q := fun _ => Around rows k paths held)
    (triple_read (fun _ hs => hs)) (fun lineages => ?_)
  split
  · exact triple_ret (fun _ hs => hs)
  · refine triple_bind triple_newUuid_around (fun id => ?_)
    exact triple_bind triple_check_same (fun _ => triple_ret (fun _ hs => hs))

variable {row : RepositoryRow}

/-- An attempt that raises has committed nothing, if its refresh does not. -/
theorem addWithLineageOnce_sound (hrefresh : ∀ attempt, faults (.refresh attempt) = .ok ())
    (hk : row.record.id = k) (hpath : row.localPath.repositoryId = k) (request : LineageRequest)
    (attempt : Nat) :
    Triple (Around rows k [] Present) (addWithLineageOnce faults row request attempt)
      (fun _ => Sound) (Around rows k [] Present) := by
  unfold addWithLineageOnce
  refine triple_bind (findOrCreate_around request attempt) (fun found => ?_)
  refine triple_bind triple_check_same (fun _ => ?_)
  refine triple_bind triple_check_same (fun _ => ?_)
  refine triple_bind (Q := fun _ => Around rows k [] Present)
    (triple_read (fun _ hs => hs)) (fun stored => ?_)
  split
  · exact triple_raise (fun _ hs => hs)
  · refine triple_bind triple_check_same (fun _ => ?_)
    refine triple_ite (fun _ => triple_raise (fun _ hs => hs)) (fun _ => ?_)
    refine triple_bind triple_check_same (fun _ => ?_)
    refine triple_bind (Q := fun _ => Sound)
      (triple_update (fun s hs => hs.sound_added (row.inLineage found.1) hk hpath _)) (fun _ => ?_)
    exact triple_bind (Q := fun _ => Sound)
      (triple_check_ok (hrefresh attempt) (fun _ hs => hs)) (fun _ => triple_ret (fun _ hs => hs))

theorem addWithLineageFrom_sound (hrefresh : ∀ attempt, faults (.refresh attempt) = .ok ())
    (hk : row.record.id = k) (hpath : row.localPath.repositoryId = k) (request : LineageRequest)
    (remaining : Nat) : ∀ attempt,
    Triple (Around rows k [] Present) (addWithLineageFrom faults row request remaining attempt)
      (fun _ => Sound) (Around rows k [] Present) := by
  induction remaining with
  | zero =>
    intro attempt
    exact triple_raise (fun _ hs => hs)
  | succ remaining ih =>
    intro attempt
    refine triple_handle (addWithLineageOnce_sound hrefresh hk hpath request attempt)
      (fun e => ?_)
    cases e with
    | integrity => exact ih (attempt + 1)
    | _ => exact triple_raise (fun _ hs => hs)

theorem addToLineage_sound (hrefresh : ∀ attempt, faults (.refresh attempt) = .ok ())
    (row : RepositoryRow) (hk : row.record.id = k) (hpath : row.localPath.repositoryId = k)
    (ownerId : Nat) (url : Str) (clone : Clone) :
    Triple (Around rows k [] Present) (addToLineage faults ownerId url clone row)
      (fun _ => Sound) (Around rows k [] Present) := by
  unfold addToLineage
  split
  · exact triple_raise (fun _ hs => hs)
  · exact addWithLineageFrom_sound hrefresh hk hpath _ _ 0

/-- A revision is imported, or nothing is left of it. -/
theorem importGithubRevision_sound (hc : CarefulGithub faults) (ownerId : Nat) (url : Str)
    (branch : Option Str) (answers : GitAnswers) :
    Triple (fun s => Sound s ∧ s.rows = rows)
      (importGithubRevision faults platform settings ownerId url branch answers)
      (fun _ => Sound) (fun s => Sound s ∧ s.rows = rows) := by
  rcases hc with ⟨hname, hbuild, hrefresh, hrespond⟩
  have hcleanup : ∀ {held : Option (List Entry) → Prop} {k : Nat} {α : Type} (e : Failure)
      {Q : α → State → Prop}, Triple (Around rows k [] held) (do
        deleteRepositoryId k
        raise e : Operation α) Q (fun s => Sound s ∧ s.rows = rows) := by
    intro held k α e Q
    exact triple_bind triple_deleteRepositoryId
      (fun _ => triple_raise (fun _ hs => hs.sound_absent))
  unfold importGithubRevision
  refine triple_bind triple_newUuid (fun k => ?_)
  refine triple_bind (resetRepositoryPath_around (fun _ hs => hs.sound_absent)) (fun _ => ?_)
  refine triple_bind (triple_handle (cloneRevision_around answers) (fun e => hcleanup e))
    (fun clone => triple_pure (fun hroot => ?_))
  refine triple_bind (Q := fun _ => Around rows k [] Present)
    (triple_check_ok hname (fun _ hs => hs)) (fun _ => ?_)
  refine triple_bind (Q := fun _ => Around rows k [] Present)
    (triple_check_ok hbuild (fun _ hs => hs)) (fun _ => ?_)
  refine triple_bind (Q := fun _ => Sound) (triple_handle
    (addToLineage_sound hrefresh (githubRow ownerId k url branch clone) rfl hroot ownerId url
      clone) (fun e => ?_)) (fun row => ?_)
  · cases e with
    | duplicate existing => exact hcleanup _
    | _ => exact hcleanup _
  · exact triple_bind (Q := fun _ => Sound) (triple_check_ok hrespond (fun _ hs => hs))
      (fun _ => triple_ret (fun _ hs => hs))

theorem importGithubRepository_sound (hc : CarefulGithub faults) (ownerId : Nat)
    (split : Except Failure (Str × Option Str)) (branch : Option Str) (answers : GitAnswers) :
    Triple (fun s => Sound s ∧ s.rows = rows)
      (importGithubRepository faults platform settings ownerId split branch answers)
      (fun _ => Sound) (fun s => Sound s ∧ s.rows = rows) := by
  unfold importGithubRepository
  refine triple_bind triple_check_same (fun parts => ?_)
  refine triple_bind triple_check_same (fun branch => ?_)
  exact importGithubRevision_sound hc ownerId parts.1 branch answers

/-- Looking up a record changes nothing. -/
theorem getRecord_same {E : State → Prop} (hE : ∀ s, Sound s ∧ s.rows = rows → E s)
    (ownerId repositoryId : Nat) :
    Triple (fun s => Sound s ∧ s.rows = rows) (getRecord faults ownerId repositoryId)
      (fun row s => (faults .get = .ok () ∧ row ∈ rows ∧ row.record.id = repositoryId ∧
        row.record.ownerId = ownerId) ∧ Sound s ∧ s.rows = rows) E := by
  unfold getRecord
  refine triple_bind (Q := fun _ s => faults .get = .ok () ∧ Sound s ∧ s.rows = rows)
    (triple_check (fun _ _ hget hs => ⟨hget, hs⟩) (fun _ s _ hs => hE s hs))
    (fun _ => triple_pure (fun hget => ?_))
  refine triple_bind (Q := fun stored s => stored = rows ∧ Sound s ∧ s.rows = rows)
    (triple_read (fun _ hs => ⟨hs.2, hs⟩)) (fun stored => triple_pure (fun hstored => ?_))
  split
  · exact triple_raise hE
  · rename_i row hrow
    rw [hstored] at hrow
    have hprops := List.find?_some hrow
    rw [Bool.and_eq_true, decide_eq_true_eq, decide_eq_true_eq] at hprops
    exact triple_ret (fun _ hs =>
      ⟨⟨hget, mem_of_find?_eq_some hrow, hprops.1, hprops.2⟩, hs⟩)

theorem reanalyseRepository_sound (hc : CarefulGithub faults) (ownerId repositoryId : Nat)
    (answers : GitAnswers) :
    Triple (fun s => Sound s ∧ s.rows = rows)
      (reanalyseRepository faults platform settings ownerId repositoryId answers)
      (fun _ => Sound) (fun s => Sound s ∧ s.rows = rows) := by
  unfold reanalyseRepository
  refine triple_bind (getRecord_same (fun _ hs => hs) ownerId repositoryId)
    (fun row => triple_pure (fun _ => ?_))
  refine triple_ite (fun _ => triple_raise (fun _ hs => hs)) (fun _ => ?_)
  have hlatest : Triple (fun s => Sound s ∧ s.rows = rows) (latestInLineage faults ownerId row)
      (fun _ s => Sound s ∧ s.rows = rows) (fun s => Sound s ∧ s.rows = rows) := by
    unfold latestInLineage
    split
    · exact triple_ret (fun _ hs => hs)
    · refine triple_bind triple_check_same (fun _ => ?_)
      exact triple_bind (Q := fun _ s => Sound s ∧ s.rows = rows) (triple_read (fun _ hs => hs))
        (fun _ => triple_ret (fun _ hs => hs))
  refine triple_bind hlatest (fun latest => ?_)
  refine triple_bind triple_check_same (fun url => ?_)
  refine triple_bind triple_check_same (fun branch => ?_)
  refine triple_bind triple_check_same (fun _ => ?_)
  refine triple_bind triple_check_same (fun remoteHead => ?_)
  split
  · exact triple_raise (fun _ hs => hs)
  · refine triple_ite (fun _ => ?_) (fun _ =>
      importGithubRevision_sound hc ownerId url branch answers)
    exact triple_bind triple_check_same (fun _ => triple_ret (fun _ hs => hs.1))

end Clones

section Deletions

variable {faults : Step → Except Failure Unit} {rows : List RepositoryRow}

variable {P : State → Prop}

theorem planLatest_same (record : RepositoryRecord) :
    Triple P (planLatest faults record) (fun _ => P) P := by
  unfold planLatest
  split
  · exact triple_ret (fun _ hs => hs)
  · refine triple_bind triple_check_same (fun _ => ?_)
    refine triple_bind (Q := fun _ => P) (triple_read (fun _ hs => hs)) (fun lineages => ?_)
    split
    · exact triple_raise (fun _ hs => hs)
    · refine triple_bind triple_check_same (fun _ => ?_)
      exact triple_bind (Q := fun _ => P) (triple_read (fun _ hs => hs))
        (fun _ => triple_ret (fun _ hs => hs))

/-- A deletion that commits has removed the row, and nothing on disk. -/
theorem deleteWithLineageUpdate_spec (record : RepositoryRecord) :
    Triple P (deleteWithLineageUpdate faults record)
      (fun _ s => (faults .delete = .ok () ∧ faults .commitDelete = .ok ()) ∧
        ∃ s₀ lineages, P s₀ ∧
          s = s₀.setRows lineages (s₀.rows.filter (fun r => r.record.id ≠ record.id))) P := by
  unfold deleteWithLineageUpdate
  refine triple_bind (planLatest_same record) (fun planned => ?_)
  refine triple_bind (Q := fun _ s => faults .delete = .ok () ∧ P s)
    (triple_check (fun _ _ h hs => ⟨h, hs⟩) (fun _ _ _ hs => hs))
    (fun _ => triple_pure (fun hdelete => ?_))
  refine triple_bind (Q := fun _ s => faults .commitDelete = .ok () ∧ P s)
    (triple_check (fun _ _ h hs => ⟨h, hs⟩) (fun _ _ _ hs => hs))
    (fun _ => triple_pure (fun hcommit => ?_))
  exact triple_update (fun s hs => ⟨⟨hdelete, hcommit⟩, s, _, hs, rfl⟩)

theorem removeTree_directories {d : Disk} {path : LocalPath} (h : path.child = none) (id : Nat) :
    (d.removeTree path).directories id =
      if id = path.repositoryId then none else d.directories id := by
  unfold Disk.removeTree
  rw [h]
  split
  · rename_i hnone
    by_cases hid : id = path.repositoryId
    · rw [if_pos hid, hid]
      exact hnone
    · rw [if_neg hid]
  · rfl
  · rename_i hchild _
    cases hchild

theorem removeTree_uploads (d : Disk) (path : LocalPath) :
    (d.removeTree path).uploads = d.uploads := by
  unfold Disk.removeTree
  split
  · rfl
  · rfl
  · rfl

/-- A repository is deleted with its directory, or it stays. -/
theorem deleteRepository_sound (ownerId repositoryId : Nat)
    (hc : ∀ row ∈ rows, row.record.id = repositoryId → row.record.ownerId = ownerId →
      faults .get = .ok () → faults .delete = .ok () → faults .commitDelete = .ok () →
      row.localPath.child = none) :
    Triple (fun s => Sound s ∧ s.rows = rows) (deleteRepository faults ownerId repositoryId)
      (fun _ s => Sound s ∧ ∀ row ∈ s.rows, row.record.id ≠ repositoryId)
      (fun s => Sound s ∧ s.rows = rows) := by
  unfold deleteRepository
  refine triple_bind (getRecord_same (fun _ hs => hs) ownerId repositoryId)
    (fun row => triple_pure (fun hrow => ?_))
  rcases hrow with ⟨hget, hmem, hid, howner⟩
  refine triple_bind (deleteWithLineageUpdate_spec row.record)
    (fun _ => triple_pure (fun hok => ?_))
  have hchild := hc row hmem hid howner hget hok.1 hok.2
  -- the row is deleted and committed; what remains is to remove the tree of its directory
  refine triple_update (fun s hs => ?_)
  rcases hs with ⟨s₀, lineages, ⟨hsound, hrows⟩, rfl⟩
  have hpath : row.localPath.repositoryId = repositoryId := by
    rw [← hrows] at hmem
    rw [hsound.paths row hmem, hid]
  have hkept : ∀ r, r ∈ s₀.rows.filter (fun r => r.record.id ≠ row.record.id) ↔
      r ∈ s₀.rows ∧ r.record.id ≠ repositoryId := by
    intro r
    rw [mem_filter, decide_eq_true_eq, hid]
  refine ⟨⟨⟨fun id => ?_, ?_⟩, fun r hr => ?_, fun r hr => ?_⟩, fun r hr => ?_⟩
  · change ((s₀.disk.removeTree row.localPath).directories id).isSome = true ↔
      ∃ r ∈ s₀.rows.filter (fun r => r.record.id ≠ row.record.id), r.record.id = id
    rw [removeTree_directories hchild, hpath]
    -- the repository has neither row nor directory, every other one keeps both or neither
    by_cases he : id = repositoryId
    · rw [if_pos he]
      constructor
      · intro hnone
        cases hnone
      · intro hex
        rcases hex with ⟨r, hr, hrid⟩
        exact absurd (hrid.trans he) ((hkept r).mp hr).2
    · rw [if_neg he, hsound.consistent.directories id]
      constructor
      · intro hex
        rcases hex with ⟨r, hr, hrid⟩
        exact ⟨r, (hkept r).mpr ⟨hr, fun h => he (hrid.symm.trans h)⟩, hrid⟩
      · intro hex
        rcases hex with ⟨r, hr, hrid⟩
        exact ⟨r, ((hkept r).mp hr).1, hrid⟩
  · change (s₀.disk.removeTree row.localPath).uploads = []
    rw [removeTree_uploads]
    exact hsound.consistent.uploads
  · exact hsound.paths r ((hkept r).mp hr).1
  · exact hsound.fresh r ((hkept r).mp hr).1
  · exact ((hkept r).mp hr).2

end Deletions

section Histories

variable {platform : Platform} {settings : Settings}

/-- A call is all-or-nothing: it leaves a directory for each row and no other, it changes
    no row if it raises, and a repository that it deletes is gone from both sides. -/
structure Atomic (platform : Platform) (settings : Settings) (s : State) (call : Call) : Prop where
  consistent : Consistent (call.operation platform settings s).2
  failed : ∀ e, (call.operation platform settings s).1 = .error e →
    (call.operation platform settings s).2.rows = s.rows
  deleted : ∀ id, call.deletes = some id → (call.operation platform settings s).1 = .ok () →
    (call.operation platform settings s).2.disk.directories id = none ∧
      ∀ row ∈ (call.operation platform settings s).2.rows, row.record.id ≠ id

variable {s : State} {call : Call}

theorem call_sound (platform : Platform) (settings : Settings) (hc : Careful s call) :
    Triple (fun t => Sound t ∧ t.rows = s.rows) (call.operation platform settings)
      (fun _ t => Sound t ∧ ∀ id, call.deletes = some id → ∀ row ∈ t.rows, row.record.id ≠ id)
      (fun t => Sound t ∧ t.rows = s.rows) := by
  have hdone : ∀ {α : Type} {x : Operation α}, call.deletes = none →
      Triple (fun t => Sound t ∧ t.rows = s.rows) x (fun _ => Sound)
        (fun t => Sound t ∧ t.rows = s.rows) →
      Triple (fun t => Sound t ∧ t.rows = s.rows) (do
        let _ ← x
        pure () : Operation Unit)
        (fun _ t => Sound t ∧ ∀ id, call.deletes = some id → ∀ row ∈ t.rows, row.record.id ≠ id)
        (fun t => Sound t ∧ t.rows = s.rows) := by
    intro α x hnone hx
    refine triple_bind hx (fun _ => triple_ret (fun t ht => ⟨ht, fun id hid => ?_⟩))
    rw [hnone] at hid
    cases hid
  cases call with
  | upload ownerId file faults =>
    exact hdone rfl (importUploadedRepository_sound hc ownerId file)
  | github ownerId split branch answers faults =>
    exact hdone rfl (importGithubRepository_sound hc ownerId split branch answers)
  | reanalyse ownerId repositoryId answers faults =>
    exact hdone rfl (reanalyseRepository_sound hc ownerId repositoryId answers)
  | delete ownerId repositoryId faults =>
    refine (deleteRepository_sound ownerId repositoryId
      (fun row hrow hid howner hget hdelete hcommit => ?_)).weaken (fun _ ht => ht)
      (fun _ t ht => ⟨ht.1, fun id hid => ?_⟩) (fun _ ht => ht)
    · rcases hc with hchild | hraises | hraises | hraises
      · exact hchild row hrow hid howner
      · exact absurd hget hraises
      · exact absurd hdelete hraises
      · exact absurd hcommit hraises
    · cases hid
      exact ht.2

theorem sound_initial : Sound initial where
  consistent := by
    refine ⟨fun id => ?_, rfl⟩
    constructor
    · intro hnone
      cases hnone
    · intro hex
      rcases hex with ⟨row, hrow, _⟩
      cases hrow
  paths := fun _ hrow => absurd hrow not_mem_nil
  fresh := fun _ hrow => absurd hrow not_mem_nil

/-- What a careful call leaves, by its outcome. -/
theorem call_cases (platform : Platform) (settings : Settings) (hs : Sound s)
    (hc : Careful s call) :
    Sound (call.operation platform settings s).2 ∧
      (∀ e, (call.operation platform settings s).1 = .error e →
        (call.operation platform settings s).2.rows = s.rows) ∧
      ((call.operation platform settings s).1 = .ok () → ∀ id, call.deletes = some id →
        ∀ row ∈ (call.operation platform settings s).2.rows, row.record.id ≠ id) := by
  have h := call_sound platform settings hc s ⟨hs, rfl⟩
  revert h
  cases hrun : call.operation platform settings s with
  | mk outcome t =>
    cases outcome with
    | ok u =>
      intro h
      refine ⟨h.1, fun e he => ?_, fun _ => h.2⟩
      cases he
    | error e =>
      intro h
      refine ⟨h.1, fun _ _ => h.2, fun he => ?_⟩
      cases he

theorem sound_of_reachable (hr : (service platform settings).ReachableBy Careful s) : Sound s := by
  refine StepSystem.reachableBy_invariant (I := Sound) (fun s₀ h₀ => ?_)
    (fun s call s' hs hc hstep => ?_) hr
  · have h₀ : s₀ = initial := h₀
    rw [h₀]
    exact sound_initial
  · have hstep : s' = (call.operation platform settings s).2 := (Option.some.inj hstep).symm
    rw [hstep]
    exact (call_cases platform settings hs hc).1

/-- After any history of careful calls the database and the disk agree, and each further
    careful call is all-or-nothing. -/
theorem calls_atomic {s : State} (hr : (service platform settings).ReachableBy Careful s) :
    Consistent s ∧ ∀ call, Careful s call → Atomic platform settings s call := by
  have hs := sound_of_reachable hr
  refine ⟨hs.consistent, fun call hc => ?_⟩
  have hcall := call_cases platform settings hs hc
  refine ⟨hcall.1.consistent, hcall.2.1, fun id hid hok => ?_⟩
  have hgone := hcall.2.2 hok id hid
  refine ⟨?_, hgone⟩
  rw [← Option.not_isSome_iff_eq_none]
  intro hsome
  rcases (hcall.1.consistent.directories id).mp hsome with ⟨row, hrow, he⟩
  exact hgone row hrow he

/-- An archive with a single root, which has a file. -/
def samplePlatform : Platform where
  archive := fun _ => .zip []
  isSafeChild := fun _ => true
  extractall := fun _ => [.directory "project".toList [.file "main.py".toList [1]]]
  parse := fun _ => .ok ⟨1⟩

def sampleSettings : Settings := ⟨100, 100, 100, 100⟩

def sampleFile : UploadFile := ⟨some "project.zip".toList, [[1, 2]]⟩

def sampleAnswers : GitAnswers where
  clone := .cloned [.directory gitDirectory [], .file "main.py".toList [1]]
  headCommit := some "0123456789012345678901234567890123456789"
  headRef := some "refs/heads/main"
  remoteHead := .ok none

def sampleUrl : Str := "https://github.com/o/r".toList

/-- No step raises but one. -/
def failing (step : Step) : Step → Except Failure Unit :=
  fun step' => if step' = step then .error .other else .ok ()

def failingNowhere : Step → Except Failure Unit :=
  fun _ => .ok ()

/-- The state after calls. -/
def after (calls : List Call) : State :=
  calls.foldl (fun s call => (call.operation samplePlatform sampleSettings s).2) initial

theorem exec_foldl (platform : Platform) (settings : Settings) (calls : List Call) : ∀ s,
    (service platform settings).exec s calls =
      some (calls.foldl (fun s call => (call.operation platform settings s).2) s) := by
  induction calls with
  | nil => intro s; rfl
  | cons call calls ih =>
    intro s
    exact ih _

/-- An upload and a clone are imported, and the clone is deleted. -/
def sampleCalls : List Call :=
  [.upload 1 sampleFile failingNowhere,
    .github 1 (.ok (sampleUrl, none)) none sampleAnswers failingNowhere,
    .delete 1 1 failingNowhere]

theorem calls_atomic_sample :
    Consistent (after sampleCalls) ∧ ∀ call, Careful (after sampleCalls) call →
      Atomic samplePlatform sampleSettings (after sampleCalls) call := by
  have hupload : CarefulUpload failingNowhere :=
    ⟨fun _ => rfl, fun _ => rfl, rfl, rfl, rfl, rfl, rfl⟩
  have hgithub : CarefulGithub failingNowhere := ⟨rfl, rfl, fun _ => rfl, rfl⟩
  have hdelete : CarefulDelete (after (sampleCalls.take 2)) 1 1 failingNowhere := by
    refine .inl (fun row hrow hid _ => ?_)
    have hrows : (after (sampleCalls.take 2)).rows.map (fun r => (r.record.id, r.localPath)) =
        [(0, ⟨0, some "project".toList⟩), (1, ⟨1, none⟩)] := rfl
    have hmem := mem_map_of_mem (f := fun r => (r.record.id, r.localPath)) hrow
    rw [hrows, hid] at hmem
    rcases mem_cons.mp hmem with he | hmem
    · cases (Prod.mk.inj he).1
    · rw [(Prod.mk.inj (mem_singleton.mp hmem)).2]
  exact calls_atomic ⟨initial, rfl, StepSystem.path_of_meets (exec_foldl _ _ sampleCalls initial)
    ⟨hupload, hgithub, hdelete, trivial⟩⟩

/-- A chunk that cannot be read leaves the upload. A commit that fails leaves the directory
    of an upload, and so does a tree that cannot be dumped. A refresh that fails after the
    commit leaves the row of a clone without its directory. The deletion of an archive with
    a single root leaves the directory. -/
theorem calls_torn :
    (∀ calls, (service samplePlatform sampleSettings).Reachable (after calls)) ∧
    (after [.upload 1 sampleFile (failing (.readChunk 0))]).disk.uploads =
      [(⟨0, ".zip".toList⟩, [])] ∧
    (after [.upload 1 sampleFile (failing (.commit 0))]).rows = [] ∧
    ((after [.upload 1 sampleFile (failing (.commit 0))]).disk.directories 0).isSome = true ∧
    (after [.upload 1 sampleFile (failing .build)]).rows = [] ∧
    ((after [.upload 1 sampleFile (failing .build)]).disk.directories 0).isSome = true ∧
    (after [.github 1 (.ok (sampleUrl, none)) none sampleAnswers
      (failing (.refresh 0))]).rows.map (fun row => row.record.id) = [0] ∧
    (after [.github 1 (.ok (sampleUrl, none)) none sampleAnswers
      (failing (.refresh 0))]).disk.directories 0 = none ∧
    (after [.upload 1 sampleFile failingNowhere, .delete 1 0 failingNowhere]).rows = [] ∧
    ((after [.upload 1 sampleFile failingNowhere,
      .delete 1 0 failingNowhere]).disk.directories 0).isSome = true := by
  refine ⟨fun calls => StepSystem.reachable_of_exec rfl (exec_foldl _ _ calls initial), ?_, ?_, ?_,
    ?_, ?_, ?_, ?_, ?_, ?_⟩
  · rfl
  · rfl
  · rfl
  · rfl
  · rfl
  · rfl
  · rfl
  · rfl
  · rfl

end Histories

end Imports

end Partha
