import Partha.Jobs.Service

/-!
# The Invariant of the Analysis Jobs

What holds of the job rows, the snapshots and every stand in any interleaving,
and the rules by which a transaction keeps it.

`Tables` is about the committed rows. Its heart is the tie between the two
tables. A completed snapshot always has a job that points at it, the job that
sealed it, and that job is running or completed; so it holds the effective
identity, and no other job can come to run for the same repository while the
snapshot is there. Conversely a completed job points at a completed snapshot.

`WorkerOk` is about what a worker remembers. It is conditional on ownership:
if the row still names this worker, then it still has the attempt and the
snapshot that the worker has loaded. A worker that lost its job may remember
anything, because every write it can still attempt is guarded.

A transaction is a chain of row updates. `Inv` is the invariant while process
`p` is in the middle of one: everything but the stand of `p`. `inv_updateJobs`
is the rule for an update of the job rows, and `RowOk` is what it asks of each
row. `inv_failSnapshot`, `inv_completeSnapshot` and the rules of insertion are
the others.

`Since` relates the rows of the moment to those at the beginning of the
transaction. It carries what is to be said about steps: a terminal job stays
as it is, an accepted cancellation stays accepted, and a worker is only
replaced by another when its lease has lapsed.

## Main definitions

* `AnalysisJob.WellFormed`: The invariant of one row.
* `Sealed`, `Building`, `SealedJob`: The state of a snapshot, and of a job's.
* `Tables`: The invariant of the committed rows.
* `WorkerOk`, `RequestOk`: What the stand of a process says about the rows.
* `Doomed`: A job whose cancellation was accepted before a seal.
* `Since`: What a transaction may have done so far.
* `Inv`: The invariant inside a transaction.
* `RowOk`: What an update may do to a row.

## Theorems

* `inv_updateJobs`: The rule for updates of job rows.
* `inv_insertJob`, `inv_insertSnapshot`: The rules for insertions.
* `inv_failSnapshot`, `inv_completeSnapshot`: The rules for the transitions of
  a snapshot.
-/

namespace Partha

namespace Jobs

open List

section Definitions

/-- The invariant of one job row. -/
structure AnalysisJob.WellFormed (j : AnalysisJob) : Prop where
  worker : j.status = .running ↔ j.workerId.isSome
  lease : j.workerId.isSome ↔ j.leaseExpiresAt.isSome
  backoff : j.nextAttemptAt.isSome → j.status = .queued
  completedAt : j.completedAt.isSome ↔ j.status.terminal
  attempts : j.attempt ≤ j.maxAttempts
  runningAttempt : j.status = .running → 1 ≤ j.attempt
  queuedAttempt : j.status = .queued → j.attempt < j.maxAttempts

/-- Snapshot `id` is completed. -/
def Sealed (db : Database) (id : Nat) : Prop :=
  ∃ t ∈ db.snapshots, t.snapshotId = id ∧ t.state = .completed

/-- Snapshot `id` is being built. -/
def Building (db : Database) (id : Nat) : Prop :=
  ∃ t ∈ db.snapshots, t.snapshotId = id ∧ t.state = .building

/-- The job points at a completed snapshot. -/
def SealedJob (db : Database) (j : AnalysisJob) : Prop :=
  ∃ id, j.snapshotId = some id ∧ Sealed db id

/-- The job belongs to its repository, at the revision and for the owner of it. -/
def AnalysisJob.InScope (cfg : Settings) (j : AnalysisJob) : Prop :=
  cfg.repositories j.repositoryId = some ⟨j.ownerId, some j.revisionValue⟩ ∧
    j.configHash = cfg.configHash

/-- The snapshot belongs to its repository. -/
def RiSnapshot.InScope (cfg : Settings) (t : RiSnapshot) : Prop :=
  cfg.revision t.repositoryId = some t.revisionValue ∧ t.configHash = cfg.configHash ∧
    t.schemaVersion = cfg.schemaVersion

/-- The invariant of the committed rows. -/
structure Tables (cfg : Settings) (db : Database) : Prop where
  jobIds : (db.jobs.map (·.id)).Nodup
  jobsOld : ∀ j ∈ db.jobs, j.id < db.nextUuid
  snapshotIds : (db.snapshots.map (·.snapshotId)).Nodup
  snapshotsOld : ∀ t ∈ db.snapshots, t.snapshotId < db.nextUuid
  indexes : indexesHold db.jobs = true
  wellFormed : ∀ j ∈ db.jobs, j.WellFormed
  jobScope : ∀ j ∈ db.jobs, j.InScope cfg
  snapshotScope : ∀ t ∈ db.snapshots, t.InScope cfg
  pointed : ∀ j ∈ db.jobs, ∀ id, j.snapshotId = some id →
    ∃ t ∈ db.snapshots, t.snapshotId = id ∧ t.repositoryId = j.repositoryId
  sealedBy : ∀ t ∈ db.snapshots, t.state = .completed → ∃ j ∈ db.jobs,
    j.snapshotId = some t.snapshotId ∧ (j.status = .running ∨ j.status = .completed) ∧
      (j.id, t.snapshotId) ∈ db.seals
  completedSealed : ∀ j ∈ db.jobs, j.status = .completed → SealedJob db j
  seals : ∀ e ∈ db.seals, ∃ j ∈ db.jobs, j.id = e.1 ∧ j.snapshotId = some e.2 ∧ Sealed db e.2
  claims : ∀ j ∈ db.jobs, db.claims.count j.id = j.attempt
  claimsOld : ∀ id ∈ db.claims, id < db.nextUuid

/-- If worker `w` still owns the job of `ctx`, then the row satisfies `P`. -/
def IfOwned (db : Database) (w jobId : Nat) (P : AnalysisJob → Prop) : Prop :=
  ∀ j ∈ db.jobs, j.id = jobId → j.ownedBy w = true → P j

/-- The row has the attempt that was loaded, and is of the same repository. -/
structure StageContext.Matches (ctx : StageContext) (j : AnalysisJob) : Prop where
  attempt : j.attempt = ctx.attempt
  maxAttempts : j.maxAttempts = ctx.maxAttempts
  repositoryId : j.repositoryId = ctx.repositoryId

/-- Before the first stage has opened a snapshot. -/
structure Unopened (db : Database) (ctx : StageContext) (j : AnalysisJob) : Prop where
  matching : ctx.Matches j
  opened : ctx.opened = false
  reused : ctx.reused = false
  snapshotId : j.snapshotId = ctx.snapshotId
  notSealed : ¬ SealedJob db j

/-- Between the opening of a snapshot and its commit. A reused snapshot is a
    completed one, and the row does not point at it. -/
structure Opened (db : Database) (ctx : StageContext) (j : AnalysisJob) : Prop where
  matching : ctx.Matches j
  opened : ctx.reused = !ctx.opened
  reused : ctx.opened = false → ∃ id, ctx.snapshotId = some id ∧ Sealed db id
  notSealed : ¬ SealedJob db j

/-- While the snapshot of the job is being built. -/
structure Built (db : Database) (ctx : StageContext) (j : AnalysisJob) : Prop where
  matching : ctx.Matches j
  reused : ctx.reused = false
  building : ∃ id, ctx.snapshotId = some id ∧ j.snapshotId = some id ∧ Building db id

/-- Once the snapshot of the job is sealed. -/
structure Finished (db : Database) (ctx : StageContext) (j : AnalysisJob) : Prop where
  matching : ctx.Matches j
  snapshotId : j.snapshotId = ctx.snapshotId
  isSealed : SealedJob db j

/-- The facts of a stage, before its body and after it. -/
def StageOk (db : Database) (ctx : StageContext) (j : AnalysisJob) : Stage → Bool → Prop
  | .openSnapshot, false => Unopened db ctx j
  | .openSnapshot, true => Opened db ctx j
  | .extract, _ => Built db ctx j
  | .sealSnapshot, false => Built db ctx j
  | .sealSnapshot, true => Finished db ctx j

/-- A stale job was loaded with a lease that had lapsed; and as long as the row
    has that owner and that lease, it is the row that was loaded. -/
structure StaleOk (db : Database) (copy : AnalysisJob) : Prop where
  lapsed : ∃ t, copy.leaseExpiresAt = some t ∧ t < db.now
  unchanged : ∀ j ∈ db.jobs, j.id = copy.id → j.status = .running →
    j.workerId = copy.workerId → j.leaseExpiresAt = copy.leaseExpiresAt →
      copy.context.Matches j ∧ j.snapshotId = copy.snapshotId

/-- What the stand of worker `w` says about the rows. -/
def WorkerOk (db : Database) (w : Nat) : Activity → Prop
  | .polled candidateId now => now ≤ db.now ∧ IfOwned db w candidateId (fun _ => False)
  | .claimed jobId => IfOwned db w jobId (fun j => ¬ SealedJob db j)
  | .ready ctx (some stage) => IfOwned db w ctx.jobId (fun j => StageOk db ctx j stage false)
  | .ready ctx none => IfOwned db w ctx.jobId (Finished db ctx)
  | .inStage ctx stage _ finished =>
    IfOwned db w ctx.jobId (fun j => StageOk db ctx j stage finished)
  | .leaving ctx stage => IfOwned db w ctx.jobId (fun j => StageOk db ctx j stage true)
  | .completing ctx => IfOwned db w ctx.jobId (Finished db ctx)
  | .cancelling ctx _ resume => IfOwned db w ctx.jobId (fun j => j.snapshotId = ctx.snapshotId) ∧
      ∀ now rest, resume = .sweep now rest → now ≤ db.now
  | .cancelMarked ctx _ resume => IfOwned db w ctx.jobId (fun j => ¬ SealedJob db j) ∧
      ∀ now rest, resume = .sweep now rest → now ≤ db.now
  | .failing ctx _ _ =>
    IfOwned db w ctx.jobId (fun j => ctx.Matches j ∧ j.snapshotId = ctx.snapshotId)
  | .failMarked ctx _ _ => IfOwned db w ctx.jobId (fun j => ctx.Matches j ∧ ¬ SealedJob db j)
  | .sweeping now _ => now ≤ db.now
  | .stale copy now _ => StaleOk db copy ∧ now ≤ db.now
  | .staleMarked ctx now _ =>
    IfOwned db w ctx.jobId (fun j => ctx.Matches j ∧ ¬ SealedJob db j) ∧ now ≤ db.now
  | _ => True

/-- The repository that a request has found. -/
def Scope.Found (cfg : Settings) (scope : Scope) : Prop :=
  cfg.repositories scope.repositoryId = some ⟨scope.ownerId, some scope.revisionValue⟩

/-- A completed snapshot of the repository. -/
def SealedFor (db : Database) (scope : Scope) (t : RiSnapshot) : Prop :=
  ∃ t' ∈ db.snapshots, t'.snapshotId = t.snapshotId ∧ t'.state = .completed ∧
    t'.repositoryId = scope.repositoryId

/-- The row that is reconciled points at the completed snapshot, and was
    running or completed when it was loaded. -/
structure ReconcileOk (db : Database) (copy : AnalysisJob) (t : RiSnapshot) : Prop where
  isSealed : Sealed db t.snapshotId
  wellFormed : copy.WellFormed
  snapshotId : copy.snapshotId = some t.snapshotId
  status : copy.status = .running ∨ copy.status = .completed
  row : ∃ j ∈ db.jobs, j.id = copy.id ∧ j.snapshotId = some t.snapshotId ∧
    (copy.status = .completed → j.status = .completed)

/-- What the stand of a request says about the rows. -/
def RequestOk (cfg : Settings) (db : Database) : Request → Prop
  | .submitting scope | .asking scope | .submitAbsent scope | .statusAbsent scope
  | .insertingQueued scope | .queuedConflict scope => scope.Found cfg
  | .submitFound scope t | .statusFound scope t => scope.Found cfg ∧ SealedFor db scope t
  | .queuedConflictRead scope snapshot =>
    scope.Found cfg ∧ ∀ t, snapshot = some t → SealedFor db scope t
  | .statusUnmatched _ _ | .insertingCompleted _ _ | .completedConflict _ _
  | .completedUnmatched _ _ => False
  | .reconciling copy t => ReconcileOk db copy t
  | _ => True

/-- A job that no snapshot was sealed by and whose cancellation was accepted. -/
structure Doomed (db : Database) (id : Nat) : Prop where
  row : ∃ j ∈ db.jobs, j.id = id ∧ j.status ≠ .completed ∧
    (j.cancelRequested = true ∨ j.status = .cancelled)
  unsealed : ∀ e ∈ db.seals, e.1 ≠ id

/-- Worker `u` has no unexpired lease on job `id`. -/
def Lapsed (db : Database) (id u : Nat) : Prop :=
  ∀ j ∈ db.jobs, j.id = id → j.workerId = some u → ∃ t, j.leaseExpiresAt = some t ∧ t < db.now

/-- What may have become of the rows of `db₀` by now. -/
structure Since (db₀ db : Database) : Prop where
  terminal : ∀ j ∈ db₀.jobs, j.status.terminal = true →
    ∃ j' ∈ db.jobs, j'.id = j.id ∧ j'.status = j.status
  cleared : ∀ j ∈ db₀.jobs, j.cancelRequested = true → ∃ j' ∈ db.jobs, j'.id = j.id ∧
    (j'.cancelRequested = true ∨ (j'.status = .cancelled ∧ j.status ≠ .cancelled) ∨
      j'.status = .completed)
  doomed : ∀ id, Doomed db₀ id → Doomed db id
  seals : ∀ e ∈ db₀.seals, e ∈ db.seals
  taken : ∀ j ∈ db.jobs, ∀ v, j.workerId = some v → ∀ u, u ≠ v → Lapsed db₀ j.id u

/-- The invariant while process `p` is inside a transaction that began in `s`
    and has the rows at `db`. -/
structure Inv (cfg : Settings) (s : State) (p : Process) (db : Database) : Prop where
  tables : Tables cfg db
  workers : ∀ w, p ≠ .worker w → WorkerOk db w (s.worker w)
  requests : ∀ r, p ≠ .request r → RequestOk cfg db (s.request r)
  since : Since s.db db
  now : db.now = s.db.now

/-- Another worker remembers the owner and the lease of this row as lapsed. -/
def Remembered (s : State) (p : Process) (j : AnalysisJob) : Prop :=
  ∃ w, p ≠ .worker w ∧ ∃ copy now rest, s.worker w = .stale copy now rest ∧ j.id = copy.id ∧
    j.workerId = copy.workerId ∧ j.leaseExpiresAt = copy.leaseExpiresAt

/-- What an update by process `p` may do to a row. -/
structure RowOk (s : State) (p : Process) (db : Database) (j j' : AnalysisJob) : Prop where
  id : j'.id = j.id
  scope : j'.repositoryId = j.repositoryId ∧ j'.ownerId = j.ownerId ∧
    j'.revisionValue = j.revisionValue ∧ j'.configHash = j.configHash
  wellFormed : j'.WellFormed
  foreign : ∀ w, p ≠ .worker w → j'.ownedBy w = true → j.ownedBy w = true ∧
    j'.attempt = j.attempt ∧ j'.maxAttempts = j.maxAttempts ∧ j'.snapshotId = j.snapshotId
  lease : j'.status = .running → (j.status = .running ∧ j'.workerId = j.workerId ∧
    j'.leaseExpiresAt = j.leaseExpiresAt ∧ j'.attempt = j.attempt ∧
      j'.maxAttempts = j.maxAttempts ∧ j'.snapshotId = j.snapshotId) ∨ ¬ Remembered s p j'
  snapshot : j'.snapshotId = j.snapshotId ∨ (¬ SealedJob db j ∧ ∃ t ∈ db.snapshots,
    j'.snapshotId = some t.snapshotId ∧ t.repositoryId = j.repositoryId)
  standing : SealedJob db j → j'.status = .running ∨ j'.status = .completed
  completed : j'.status = .completed → SealedJob db j'
  terminal : j.status.terminal = true → j'.status = j.status
  flag : j.cancelRequested = true → j'.cancelRequested = true ∨
    (j'.status = .cancelled ∧ j.status ≠ .cancelled) ∨ j'.status = .completed
  worker : j'.workerId = j.workerId ∨ j'.workerId = none ∨
    ∀ v, j'.workerId = some v → ∀ u, u ≠ v → Lapsed s.db j.id u

end Definitions

section Rows

variable {cfg : Settings} {db : Database}

variable {j j' : AnalysisJob} {t : RiSnapshot} {id : Nat}

theorem Tables.job_eq (h : Tables cfg db) (hj : j ∈ db.jobs) (hj' : j' ∈ db.jobs)
    (e : j.id = j'.id) :
    j = j' :=
  Rows.eq_of_key_eq h.jobIds hj hj' e

theorem Tables.snapshot_eq (h : Tables cfg db) {t' : RiSnapshot} (ht : t ∈ db.snapshots)
    (ht' : t' ∈ db.snapshots) (e : t.snapshotId = t'.snapshotId) : t = t' :=
  Rows.eq_of_key_eq h.snapshotIds ht ht' e

theorem indexesHold_iff {jobs : List AnalysisJob} : indexesHold jobs = true ↔
    (jobs.filterMap (·.snapshotId)).Nodup ∧
      ((jobs.filter (·.status.effective)).map AnalysisJob.identity).Nodup :=
  decide_eq_true_iff

/-- Two jobs do not point at one snapshot. -/
theorem Tables.pointed_eq (h : Tables cfg db) (hj : j ∈ db.jobs) (hj' : j' ∈ db.jobs)
    (e : j.snapshotId = some id) (e' : j'.snapshotId = some id) : j = j' :=
  Rows.eq_of_column_eq (indexesHold_iff.mp h.indexes).1 hj hj' e e'

/-- Two effective jobs are not for one identity. -/
theorem Tables.effective_eq (h : Tables cfg db) (hj : j ∈ db.jobs) (hj' : j' ∈ db.jobs)
    (he : j.status.effective = true) (he' : j'.status.effective = true)
    (e : j.identity = j'.identity) : j = j' :=
  Rows.eq_of_key_eq (indexesHold_iff.mp h.indexes).2 (mem_filter.mpr ⟨hj, he⟩)
    (mem_filter.mpr ⟨hj', he'⟩) e

theorem mem_of_job (h : db.job id = some j) : j ∈ db.jobs ∧ j.id = id :=
  ⟨mem_of_find?_eq_some h, by simpa using List.find?_some h⟩

theorem mem_of_snapshot (h : db.snapshot id = some t) : t ∈ db.snapshots ∧ t.snapshotId = id :=
  ⟨mem_of_find?_eq_some h, by simpa using List.find?_some h⟩

theorem ownedBy_iff {w : Nat} : j.ownedBy w = true ↔ j.status = .running ∧ j.workerId = some w :=
  decide_eq_true_iff

/-- The job that a completed snapshot was sealed by still points at it. -/
theorem Tables.sealedJob_status (h : Tables cfg db) (hj : j ∈ db.jobs) (hs : SealedJob db j) :
    (j.status = .running ∨ j.status = .completed) ∧
      ∃ id, j.snapshotId = some id ∧ (j.id, id) ∈ db.seals := by
  rcases hs with ⟨id, hid, t, ht, htid, hstate⟩
  rcases h.sealedBy t ht hstate with ⟨j', hj', hpoint, hstatus, hseal⟩
  rw [htid] at hpoint hseal
  rw [h.pointed_eq hj hj' hid hpoint]
  exact ⟨hstatus, id, hpoint, hseal⟩

/-- A terminal status that is not `completed` says that nothing was sealed. -/
theorem Tables.not_sealed (h : Tables cfg db) (hj : j ∈ db.jobs) (hr : j.status ≠ .running)
    (hc : j.status ≠ .completed) : ¬ SealedJob db j := by
  intro hs
  rcases (h.sealedJob_status hj hs).1 with e | e
  · exact hr e
  · exact hc e

theorem AnalysisJob.WellFormed.worker_none (h : j.WellFormed) (hr : j.status ≠ .running) :
    j.workerId = none ∧ j.leaseExpiresAt = none := by
  have hw : j.workerId.isSome = false := by
    rw [Bool.eq_false_iff]
    exact fun e => hr (h.worker.mpr e)
  have hl : j.leaseExpiresAt.isSome = false := by
    rw [Bool.eq_false_iff]
    intro e
    rw [h.lease.mpr e] at hw
    cases hw
  exact ⟨by simpa using hw, by simpa using hl⟩

theorem effective_of_terminal {a b : JobStatus} (h : a.terminal = true → b = a)
    (hb : b.effective = true) : a.effective = true := by
  cases a with
  | failed => exact (h rfl) ▸ hb
  | cancelled => exact (h rfl) ▸ hb
  | _ => rfl

variable {s : State} {p : Process}

theorem rowOk_refl (h : Tables cfg db) (hj : j ∈ db.jobs) : RowOk s p db j j where
  id := rfl
  scope := ⟨rfl, rfl, rfl, rfl⟩
  wellFormed := h.wellFormed j hj
  foreign := fun _ _ ho => ⟨ho, rfl, rfl, rfl⟩
  lease := fun hr => .inl ⟨hr, rfl, rfl, rfl, rfl, rfl⟩
  snapshot := .inl rfl
  standing := fun hs => (h.sealedJob_status hj hs).1
  completed := h.completedSealed j hj
  terminal := fun _ => rfl
  flag := .inl
  worker := .inl rfl

theorem since_refl (h : Tables cfg db) : Since db db where
  terminal := fun j hj _ => ⟨j, hj, rfl, rfl⟩
  cleared := fun j hj hf => ⟨j, hj, rfl, .inl hf⟩
  doomed := fun _ hd => hd
  seals := fun _ he => he
  taken := by
    intro j hj v hv u hne j' hj' e hu
    rw [h.job_eq hj' hj e, hv, Option.some.injEq] at hu
    exact absurd hu.symm hne

end Rows

section Frames

variable {cfg : Settings} {db db' : Database} {w : Nat}

/-- A row that worker `w` owns, before and after a step of another process. -/
structure Kept (db db' : Database) (j j' : AnalysisJob) : Prop where
  id : j.id = j'.id
  attempt : j'.attempt = j.attempt
  maxAttempts : j'.maxAttempts = j.maxAttempts
  repositoryId : j'.repositoryId = j.repositoryId
  snapshotId : j'.snapshotId = j.snapshotId
  notSealed : ¬ SealedJob db j → ¬ SealedJob db' j'
  isSealed : SealedJob db j → SealedJob db' j'
  building : ∀ id, j.snapshotId = some id → Building db id → Building db' id

/-- What a step of another process leaves worker `w`: the rows it owns, the
    completed snapshots, and time does not go back. -/
structure WorkerFrame (w : Nat) (db db' : Database) : Prop where
  rows : ∀ j' ∈ db'.jobs, j'.ownedBy w = true →
    ∃ j ∈ db.jobs, j.ownedBy w = true ∧ Kept db db' j j'
  isSealed : ∀ id, Sealed db id → Sealed db' id
  now : db.now ≤ db'.now

variable {ctx : StageContext} {j j' : AnalysisJob}

theorem StageContext.Matches.kept (h : ctx.Matches j) (hk : Kept db db' j j') : ctx.Matches j' :=
  ⟨hk.attempt.trans h.attempt, hk.maxAttempts.trans h.maxAttempts,
    hk.repositoryId.trans h.repositoryId⟩

theorem ifOwned_frame (hf : WorkerFrame w db db') {jobId : Nat} {P P' : AnalysisJob → Prop}
    (h : IfOwned db w jobId P) (hP : ∀ j j', Kept db db' j j' → P j → P' j') :
    IfOwned db' w jobId P' := by
  intro j' hj' hid ho
  rcases hf.rows j' hj' ho with ⟨j, hj, ho, hk⟩
  exact hP j j' hk (h j hj (hk.id.trans hid) ho)

theorem unopened_kept (hk : Kept db db' j j') (h : Unopened db ctx j) : Unopened db' ctx j' :=
  ⟨h.matching.kept hk, h.opened, h.reused, hk.snapshotId.trans h.snapshotId,
    hk.notSealed h.notSealed⟩

theorem opened_kept (hf : WorkerFrame w db db') (hk : Kept db db' j j') (h : Opened db ctx j) :
    Opened db' ctx j' := by
  refine ⟨h.matching.kept hk, h.opened, fun ho => ?_, hk.notSealed h.notSealed⟩
  rcases h.reused ho with ⟨id, hid, hs⟩
  exact ⟨id, hid, hf.isSealed id hs⟩

theorem built_kept (hk : Kept db db' j j') (h : Built db ctx j) : Built db' ctx j' := by
  rcases h.building with ⟨id, hid, hj, hb⟩
  exact ⟨h.matching.kept hk, h.reused, id, hid, hk.snapshotId.trans hj, hk.building id hj hb⟩

theorem finished_kept (hk : Kept db db' j j') (h : Finished db ctx j) : Finished db' ctx j' :=
  ⟨h.matching.kept hk, hk.snapshotId.trans h.snapshotId, hk.isSealed h.isSealed⟩

theorem stageOk_kept (hf : WorkerFrame w db db') (hk : Kept db db' j j') {stage : Stage}
    {finished : Bool} (h : StageOk db ctx j stage finished) :
    StageOk db' ctx j' stage finished := by
  cases stage with
  | openSnapshot =>
    cases finished with
    | false => exact unopened_kept hk h
    | true => exact opened_kept hf hk h
  | extract => exact built_kept hk h
  | sealSnapshot =>
    cases finished with
    | false => exact built_kept hk h
    | true => exact finished_kept hk h

/-- A stand stays right when the worker's rows are left alone. A stale job is
    somebody else's row, so it is a condition of its own. -/
theorem workerOk_frame (hf : WorkerFrame w db db') {q : Activity} (h : WorkerOk db w q)
    (hstale : ∀ copy now rest, q = .stale copy now rest → StaleOk db copy → StaleOk db' copy) :
    WorkerOk db' w q := by
  have hnow : ∀ n, n ≤ db.now → n ≤ db'.now := fun n hn => Nat.le_trans hn hf.now
  cases q with
  | polled => exact ⟨hnow _ h.1, ifOwned_frame hf h.2 (fun _ _ _ => id)⟩
  | claimed => exact ifOwned_frame hf h (fun _ _ hk => hk.notSealed)
  | ready ctx stage =>
    cases stage with
    | none => exact ifOwned_frame hf h (fun _ _ => finished_kept)
    | some stage => exact ifOwned_frame hf h (fun _ _ hk => stageOk_kept hf hk)
  | inStage => exact ifOwned_frame hf h (fun _ _ hk => stageOk_kept hf hk)
  | leaving => exact ifOwned_frame hf h (fun _ _ hk => stageOk_kept hf hk)
  | completing => exact ifOwned_frame hf h (fun _ _ => finished_kept)
  | cancelling =>
    exact ⟨ifOwned_frame hf h.1 (fun _ _ hk e => hk.snapshotId.trans e),
      fun now rest e => hnow _ (h.2 now rest e)⟩
  | cancelMarked =>
    exact ⟨ifOwned_frame hf h.1 (fun _ _ hk => hk.notSealed),
      fun now rest e => hnow _ (h.2 now rest e)⟩
  | failing =>
    exact ifOwned_frame hf h (fun _ _ hk hj => ⟨hj.1.kept hk, hk.snapshotId.trans hj.2⟩)
  | failMarked => exact ifOwned_frame hf h (fun _ _ hk hj => ⟨hj.1.kept hk, hk.notSealed hj.2⟩)
  | sweeping => exact hnow _ h
  | stale copy now rest => exact ⟨hstale copy now rest rfl h.1, hnow _ h.2⟩
  | staleMarked =>
    exact ⟨ifOwned_frame hf h.1 (fun _ _ hk hj => ⟨hj.1.kept hk, hk.notSealed hj.2⟩),
      hnow _ h.2⟩
  | _ => trivial

/-- A completed snapshot stays one, and the job that a request is reconciling
    keeps pointing at it. -/
structure RequestFrame (db db' : Database) : Prop where
  snapshots : ∀ t ∈ db.snapshots, t.state = .completed → ∃ t' ∈ db'.snapshots,
    t'.snapshotId = t.snapshotId ∧ t'.state = .completed ∧ t'.repositoryId = t.repositoryId
  rows : ∀ j ∈ db.jobs, SealedJob db j → ∃ j' ∈ db'.jobs, j'.id = j.id ∧
    j'.snapshotId = j.snapshotId ∧ (j.status = .completed → j'.status = .completed)

theorem RequestFrame.isSealed (hf : RequestFrame db db') {id : Nat} (h : Sealed db id) :
    Sealed db' id := by
  rcases h with ⟨t, ht, hid, hstate⟩
  rcases hf.snapshots t ht hstate with ⟨t', ht', hid', hstate', _⟩
  exact ⟨t', ht', hid'.trans hid, hstate'⟩

theorem requestOk_frame (hf : RequestFrame db db') {q : Request} (h : RequestOk cfg db q) :
    RequestOk cfg db' q := by
  have hfor : ∀ scope t, SealedFor db scope t → SealedFor db' scope t := by
    rintro scope t ⟨u, hu, hid, hstate, hrepo⟩
    rcases hf.snapshots u hu hstate with ⟨u', hu', hid', hstate', hrepo'⟩
    exact ⟨u', hu', hid'.trans hid, hstate', hrepo'.trans hrepo⟩
  cases q with
  | submitFound scope t => exact ⟨h.1, hfor scope t h.2⟩
  | statusFound scope t => exact ⟨h.1, hfor scope t h.2⟩
  | queuedConflictRead scope t => exact ⟨h.1, fun u hu => hfor scope u (h.2 u hu)⟩
  | reconciling copy t =>
    rcases h.row with ⟨j, hj, hid, hpoint, hdone⟩
    rcases hf.rows j hj ⟨_, hpoint, h.isSealed⟩ with ⟨j', hj', hid', hpoint', hdone'⟩
    exact ⟨hf.isSealed h.isSealed, h.wellFormed, h.snapshotId, h.status, j', hj',
      hid'.trans hid, hpoint'.trans hpoint, fun hc => hdone' (hdone hc)⟩
  | _ => exact h

end Frames

section Updates

variable {cfg : Settings} {s : State} {p : Process} {db : Database}

variable {guard : AnalysisJob → Bool} {f : AnalysisJob → AnalysisJob} {j j' : AnalysisJob}
  {claims : List Nat}

/-- The rows after an update, with what became of each. -/
theorem row_after (h : Tables cfg db) (hrow : ∀ j ∈ db.jobs, guard j = true → RowOk s p db j (f j))
    (hj : j ∈ db.jobs) : ∃ j' ∈ Rows.updateWhere guard f db.jobs, RowOk s p db j j' := by
  refine ⟨_, Rows.mem_updateWhere_of_mem hj, ?_⟩
  by_cases hg : guard j = true
  · rw [if_pos hg]
    exact hrow j hj hg
  · rw [if_neg hg]
    exact rowOk_refl h hj

theorem row_before (h : Tables cfg db) (hrow : ∀ j ∈ db.jobs, guard j = true → RowOk s p db j (f j))
    (hj' : j' ∈ Rows.updateWhere guard f db.jobs) : ∃ j ∈ db.jobs, RowOk s p db j j' := by
  rcases Rows.mem_updateWhere.mp hj' with ⟨hj, _⟩ | ⟨j, hj, hg, rfl⟩
  · exact ⟨j', hj, rowOk_refl h hj⟩
  · exact ⟨j, hj, hrow j hj hg⟩

/-- A job that points at a completed snapshot keeps pointing at it. -/
theorem RowOk.sealed_snapshotId (hr : RowOk s p db j j') (hs : SealedJob db j) :
    j'.snapshotId = j.snapshotId := by
  rcases hr.snapshot with e | ⟨hns, _⟩
  · exact e
  · exact absurd hs hns

theorem tables_updateJobs (h : Tables cfg db)
    (hrow : ∀ j ∈ db.jobs, guard j = true → RowOk s p db j (f j))
    (hindexes : indexesHold (Rows.updateWhere guard f db.jobs) = true)
    (hclaims : ∀ j ∈ db.jobs, claims.count j.id = (if guard j then f j else j).attempt)
    (hold : ∀ id ∈ claims, id < db.nextUuid) :
    Tables cfg { db with jobs := Rows.updateWhere guard f db.jobs, claims := claims } where
  jobIds := by
    have hids : (Rows.updateWhere guard f db.jobs).map (·.id) = db.jobs.map (·.id) := by
      rw [Rows.updateWhere, map_map]
      refine map_congr_left (fun j hj => ?_)
      by_cases hg : guard j = true
      · simp [if_pos hg, (hrow j hj hg).id]
      · simp [if_neg hg]
    rw [hids]
    exact h.jobIds
  -- Every row comes from one row, and every row goes to one.
  jobsOld := by
    intro j' hj'
    rcases row_before h hrow hj' with ⟨j, hj, hr⟩
    rw [hr.id]
    exact h.jobsOld j hj
  snapshotIds := h.snapshotIds
  snapshotsOld := h.snapshotsOld
  indexes := hindexes
  wellFormed := by
    intro j' hj'
    rcases row_before h hrow hj' with ⟨j, _, hr⟩
    exact hr.wellFormed
  jobScope := by
    intro j' hj'
    rcases row_before h hrow hj' with ⟨j, hj, hr⟩
    rcases hr.scope with ⟨hrepo, howner, hrev, hconfig⟩
    have hscope := h.jobScope j hj
    exact ⟨by rw [hrepo, howner, hrev]; exact hscope.1, hconfig.trans hscope.2⟩
  snapshotScope := h.snapshotScope
  pointed := by
    intro j' hj' id hid
    rcases row_before h hrow hj' with ⟨j, hj, hr⟩
    rcases hr.snapshot with e | ⟨_, t, ht, hpoint, hrepo⟩
    · rcases h.pointed j hj id (e ▸ hid) with ⟨t, ht, htid, hrepo⟩
      exact ⟨t, ht, htid, hrepo.trans hr.scope.1.symm⟩
    · rw [hpoint, Option.some.injEq] at hid
      exact ⟨t, ht, hid, hrepo.trans hr.scope.1.symm⟩
  sealedBy := by
    intro t ht hstate
    rcases h.sealedBy t ht hstate with ⟨j, hj, hpoint, _, hseal⟩
    have hs : SealedJob db j := ⟨_, hpoint, t, ht, rfl, hstate⟩
    rcases row_after h hrow hj with ⟨j', hj', hr⟩
    exact ⟨j', hj', (hr.sealed_snapshotId hs).trans hpoint, hr.standing hs,
      by rw [hr.id]; exact hseal⟩
  completedSealed := by
    intro j' hj' hc
    rcases row_before h hrow hj' with ⟨j, _, hr⟩
    exact hr.completed hc
  seals := by
    intro e he
    rcases h.seals e he with ⟨j, hj, hid, hpoint, hs⟩
    rcases row_after h hrow hj with ⟨j', hj', hr⟩
    exact ⟨j', hj', hr.id.trans hid, (hr.sealed_snapshotId ⟨_, hpoint, hs⟩).trans hpoint, hs⟩
  claims := by
    intro j' hj'
    rcases mem_map.mp hj' with ⟨j, hj, rfl⟩
    have hcount := hclaims j hj
    by_cases hg : guard j = true
    · rw [if_pos hg] at hcount ⊢
      rw [(hrow j hj hg).id]
      exact hcount
    · rw [if_neg hg] at hcount ⊢
      exact hcount
  claimsOld := hold

/-- A doomed job stays doomed: its flag goes only with a cancellation, and a
    completion would need a snapshot that the job has sealed. -/
theorem doomed_row {jobs : List AnalysisJob}
    (h' : Tables cfg { db with jobs := jobs, claims := claims })
    (hafter : ∀ j ∈ db.jobs, ∃ j' ∈ jobs, RowOk s p db j j') {id : Nat} (hd : Doomed db id) :
    Doomed { db with jobs := jobs, claims := claims } id := by
  rcases hd.row with ⟨j, hj, hid, hnc, hstatus⟩
  rcases hafter j hj with ⟨j', hj', hr⟩
  have hdone : j'.status ≠ .completed := by
    intro hc
    rcases (h'.sealedJob_status hj' (h'.completedSealed j' hj' hc)).2 with ⟨sid, _, hseal⟩
    exact hd.unsealed _ hseal (hr.id.trans hid)
  refine ⟨⟨j', hj', hr.id.trans hid, hdone, ?_⟩, hd.unsealed⟩
  rcases hstatus with hflag | hcancelled
  · rcases hr.flag hflag with hf | ⟨hc, _⟩ | hc
    · exact .inl hf
    · exact .inr hc
    · exact absurd hc hdone
  · refine .inr ((hr.terminal ?_).trans hcancelled)
    rw [hcancelled]
    rfl

/-- A flag that one update after another may have cleared. -/
theorem RowOk.cleared {j₁ : AnalysisJob} (hr : RowOk s p db j₁ j')
    (hterm : j.status = .cancelled → j₁.status = .cancelled)
    (hone : j₁.cancelRequested = true ∨ (j₁.status = .cancelled ∧ j.status ≠ .cancelled) ∨
      j₁.status = .completed) : j'.cancelRequested = true ∨
        (j'.status = .cancelled ∧ j.status ≠ .cancelled) ∨ j'.status = .completed := by
  rcases hone with hflag | ⟨hc, hne⟩ | hc
  · rcases hr.flag hflag with hf | ⟨hc, hne⟩ | hc
    · exact .inl hf
    · exact .inr (.inl ⟨hc, fun e => hne (hterm e)⟩)
    · exact .inr (.inr hc)
  · exact .inr (.inl ⟨(hr.terminal (by rw [hc]; rfl)).trans hc, hne⟩)
  · exact .inr (.inr ((hr.terminal (by rw [hc]; rfl)).trans hc))

/-- The rule for an update of job rows. -/
theorem inv_updateJobs (h : Inv cfg s p db)
    (hrow : ∀ j ∈ db.jobs, guard j = true → RowOk s p db j (f j))
    (hindexes : indexesHold (Rows.updateWhere guard f db.jobs) = true)
    (hclaims : ∀ j ∈ db.jobs, claims.count j.id = (if guard j then f j else j).attempt)
    (hold : ∀ id ∈ claims, id < db.nextUuid) :
    Inv cfg s p { db with jobs := Rows.updateWhere guard f db.jobs, claims := claims } := by
  have ht := h.tables
  have ht' := tables_updateJobs ht hrow hindexes hclaims hold
  refine ⟨ht', fun w hw => ?_, fun r hr => ?_, ?_, h.now⟩
  · have hframe : WorkerFrame w db
        { db with jobs := Rows.updateWhere guard f db.jobs, claims := claims } := by
      refine ⟨fun j' hj' ho => ?_, fun _ => id, Nat.le_refl _⟩
      rcases row_before ht hrow hj' with ⟨j, hj, hr⟩
      rcases hr.foreign w hw ho with ⟨ho, hattempt, hmax, hsnap⟩
      have hiff : ∀ a b : AnalysisJob, a.snapshotId = b.snapshotId → SealedJob db a →
          SealedJob db b := fun a b e ⟨id, hid, hs⟩ => ⟨id, e ▸ hid, hs⟩
      exact ⟨j, hj, ho, hr.id.symm, hattempt, hmax, hr.scope.1, hsnap,
        fun hns hs => hns (hiff j' j hsnap hs), hiff j j' hsnap.symm, fun _ _ => id⟩
    refine workerOk_frame hframe (h.workers w hw) (fun copy now rest hq hstale => ?_)
    -- A row with the remembered owner and lease is a row that was not written.
    refine ⟨hstale.lapsed, fun j' hj' hid hrun hwk hls => ?_⟩
    rcases row_before ht hrow hj' with ⟨j, hj, hr⟩
    rcases hr.lease hrun with ⟨hrun', hwk', hls', hattempt, hmax, hsnap⟩ | hnew
    · rcases hstale.unchanged j hj (hr.id.symm.trans hid) hrun' (hwk'.symm.trans hwk)
        (hls'.symm.trans hls) with ⟨hm, hs⟩
      exact ⟨⟨hattempt.trans hm.attempt, hmax.trans hm.maxAttempts,
        hr.scope.1.trans hm.repositoryId⟩, hsnap.trans hs⟩
    · exact absurd ⟨w, hw, copy, now, rest, hq, hid, hwk, hls⟩ hnew
  · have hframe : RequestFrame db
        { db with jobs := Rows.updateWhere guard f db.jobs, claims := claims } := by
      refine ⟨fun t ht hstate => ⟨t, ht, rfl, hstate, rfl⟩, fun j hj hs => ?_⟩
      rcases row_after ht hrow hj with ⟨j', hj', hr⟩
      refine ⟨j', hj', hr.id, hr.sealed_snapshotId hs, fun hc => (hr.terminal ?_).trans hc⟩
      rw [hc]
      rfl
    exact requestOk_frame hframe (h.requests r hr)
  · refine ⟨fun j hj hterm => ?_, fun j hj hflag => ?_,
      fun id hd => doomed_row ht' (fun j hj => row_after ht hrow hj) (h.since.doomed id hd),
      h.since.seals, ?_⟩
    · rcases h.since.terminal j hj hterm with ⟨j₁, hj₁, hid₁, hstatus₁⟩
      rcases row_after ht hrow hj₁ with ⟨j', hj', hr⟩
      exact ⟨j', hj', hr.id.trans hid₁, (hr.terminal (hstatus₁ ▸ hterm)).trans hstatus₁⟩
    · rcases h.since.cleared j hj hflag with ⟨j₁, hj₁, hid₁, hone⟩
      rcases row_after ht hrow hj₁ with ⟨j', hj', hr⟩
      refine ⟨j', hj', hr.id.trans hid₁, hr.cleared (fun e => ?_) hone⟩
      rcases h.since.terminal j hj (by rw [e]; rfl) with ⟨j₂, hj₂, hid₂, hstatus₂⟩
      rw [ht.job_eq hj₁ hj₂ (hid₁.trans hid₂.symm), hstatus₂, e]
    · intro j' hj' v hv u hne
      rcases row_before ht hrow hj' with ⟨j, hj, hr⟩
      rw [hr.id]
      rcases hr.worker with e | e | hlapsed
      · exact h.since.taken j hj v (e ▸ hv) u hne
      · rw [e] at hv
        cases hv
      · exact hlapsed v hv u hne

/-- An update that leaves the columns of the unique indexes alone, or takes
    rows out of them, breaks none. -/
theorem indexes_updateJobs (h : Tables cfg db)
    (hrow : ∀ j ∈ db.jobs, guard j = true → RowOk s p db j (f j))
    (hsnap : ∀ j ∈ db.jobs, guard j = true → (f j).snapshotId = j.snapshotId) :
    indexesHold (Rows.updateWhere guard f db.jobs) = true := by
  have hold := indexesHold_iff.mp h.indexes
  have hall : ∀ j ∈ db.jobs, RowOk s p db j (if guard j then f j else j) := by
    intro j hj
    by_cases hg : guard j = true
    · rw [if_pos hg]
      exact hrow j hj hg
    · rw [if_neg hg]
      exact rowOk_refl h hj
  refine indexesHold_iff.mpr ⟨?_, ?_⟩
  · rw [Rows.updateWhere, filterMap_map]
    rw [filterMap_congr (fun j hj => ?_)]
    · exact hold.1
    · by_cases hg : guard j = true
      · simp [if_pos hg, hsnap j hj hg]
      · simp [if_neg hg]
  · rw [Rows.updateWhere, filter_map, map_map]
    have hidentity : ∀ j ∈ db.jobs.filter
        ((·.status.effective) ∘ fun j => if guard j then f j else j),
        (AnalysisJob.identity ∘ fun j => if guard j then f j else j) j = j.identity := by
      intro j hj
      rcases (hall j (mem_of_mem_filter hj)).scope with ⟨hrepo, _, hrev, hconfig⟩
      simp [AnalysisJob.identity, hrepo, hrev, hconfig]
    rw [map_congr_left hidentity]
    -- The rows that are effective now were effective before.
    have hsub : (db.jobs.filter
        ((·.status.effective) ∘ fun j => if guard j then f j else j)).Sublist
        (db.jobs.filter (·.status.effective)) :=
      Rows.filter_sublist_filter (fun j hj => effective_of_terminal (hall j hj).terminal)
    exact hold.2.sublist (hsub.map _)

end Updates

section Snapshots

variable {cfg : Settings} {s : State} {p : Process} {db : Database}

variable {id : Nat} {f : RiSnapshot → RiSnapshot} {t : RiSnapshot} {j : AnalysisJob}

/-- A row of the snapshots after an update, and what it was. -/
theorem snapshot_before {t' : RiSnapshot} (h : t' ∈ (db.updateSnapshot id f).snapshots) :
    (t' ∈ db.snapshots ∧ t'.snapshotId ≠ id) ∨
      ∃ t ∈ db.snapshots, t.snapshotId = id ∧ t' = f t := by
  rcases Rows.mem_updateWhere.mp h with ⟨ht, hne⟩ | ⟨t, ht, hid, rfl⟩
  · exact .inl ⟨ht, of_decide_eq_false hne⟩
  · exact .inr ⟨t, ht, of_decide_eq_true hid, rfl⟩

theorem snapshot_other (ht : t ∈ db.snapshots) (hne : t.snapshotId ≠ id) :
    t ∈ (db.updateSnapshot id f).snapshots :=
  Rows.mem_updateWhere.mpr (.inl ⟨ht, decide_eq_false hne⟩)

theorem snapshot_updated (ht : t ∈ db.snapshots) (hid : t.snapshotId = id) :
    f t ∈ (db.updateSnapshot id f).snapshots :=
  Rows.mem_updateWhere.mpr (.inr ⟨t, ht, decide_eq_true hid, rfl⟩)

/-- A transition of a snapshot leaves its identity alone. -/
structure Transition (f : RiSnapshot → RiSnapshot) : Prop where
  snapshotId : ∀ t, (f t).snapshotId = t.snapshotId
  repositoryId : ∀ t, (f t).repositoryId = t.repositoryId
  inScope : ∀ t cfg, t.InScope cfg → (f t).InScope cfg

theorem snapshots_updateSnapshot (h : Tables cfg db) (id : Nat) (hf : Transition f) :
    ((db.updateSnapshot id f).snapshots.map (·.snapshotId)).Nodup ∧
      (∀ t ∈ (db.updateSnapshot id f).snapshots, t.snapshotId < db.nextUuid ∧ t.InScope cfg) ∧
      ∀ t ∈ db.snapshots, ∃ t' ∈ (db.updateSnapshot id f).snapshots,
        t'.snapshotId = t.snapshotId ∧ t'.repositoryId = t.repositoryId := by
  refine ⟨?_, fun t' ht' => ?_, fun t ht => ?_⟩
  · have hids : (db.updateSnapshot id f).snapshots.map (·.snapshotId) =
        db.snapshots.map (·.snapshotId) := Rows.map_updateWhere (fun t _ => hf.snapshotId t) _
    rw [hids]
    exact h.snapshotIds
  · rcases snapshot_before ht' with ⟨ht, _⟩ | ⟨t, ht, _, rfl⟩
    · exact ⟨h.snapshotsOld t' ht, h.snapshotScope t' ht⟩
    · exact ⟨hf.snapshotId t ▸ h.snapshotsOld t ht, hf.inScope t cfg (h.snapshotScope t ht)⟩
  · by_cases hid : t.snapshotId = id
    · exact ⟨f t, snapshot_updated ht hid, hf.snapshotId t, hf.repositoryId t⟩
    · exact ⟨t, snapshot_other ht hid, rfl, rfl⟩

/-- Failing a snapshot that is not completed leaves the completed ones. -/
theorem sealed_failSnapshot (hstate : ∀ t, (f t).state = .failed) (hns : ¬ Sealed db id) (x : Nat) :
    Sealed (db.updateSnapshot id f) x ↔ Sealed db x := by
  constructor
  · rintro ⟨t', ht', hid, hdone⟩
    rcases snapshot_before ht' with ⟨ht, _⟩ | ⟨t, _, _, rfl⟩
    · exact ⟨t', ht, hid, hdone⟩
    · rw [hstate t] at hdone
      cases hdone
  · rintro ⟨t, ht, hid, hdone⟩
    refine ⟨t, snapshot_other ht (fun e => hns ⟨t, ht, e, hdone⟩), hid, hdone⟩

/-- The rule for failing a snapshot. It belongs to a job that no other worker
    owns. -/
theorem inv_failSnapshot (h : Inv cfg s p db) (hf : Transition f)
    (hstate : ∀ t, (f t).state = .failed) (hns : ¬ Sealed db id)
    (hmine : ∃ j ∈ db.jobs, j.snapshotId = some id ∧
      ∀ w, p ≠ .worker w → ¬ j.ownedBy w = true) : Inv cfg s p (db.updateSnapshot id f) := by
  have ht := h.tables
  have hsealed : ∀ x, Sealed (db.updateSnapshot id f) x ↔ Sealed db x :=
    sealed_failSnapshot hstate hns
  have hjob : ∀ j, SealedJob (db.updateSnapshot id f) j ↔ SealedJob db j := fun j =>
    exists_congr (fun x => and_congr_right (fun _ => hsealed x))
  rcases snapshots_updateSnapshot ht id hf with ⟨hids, hrows, hafter⟩
  have hkeep : ∀ t ∈ db.snapshots, t.state = .completed →
      t ∈ (db.updateSnapshot id f).snapshots := fun t ht hdone =>
    snapshot_other ht (fun e => hns ⟨t, ht, e, hdone⟩)
  have htables : Tables cfg (db.updateSnapshot id f) := by
    refine ⟨ht.jobIds, ht.jobsOld, hids, fun t ht => (hrows t ht).1, ht.indexes, ht.wellFormed,
      ht.jobScope, fun t ht => (hrows t ht).2, fun j hj x hx => ?_, fun t' ht' hdone => ?_,
      fun j hj hc => (hjob j).mpr (ht.completedSealed j hj hc), fun e he => ?_, ht.claims,
      ht.claimsOld⟩
    · rcases ht.pointed j hj x hx with ⟨t, htm, hid, hrepo⟩
      rcases hafter t htm with ⟨t', ht', hid', hrepo'⟩
      exact ⟨t', ht', hid'.trans hid, hrepo'.trans hrepo⟩
    · rcases snapshot_before ht' with ⟨htm, _⟩ | ⟨t, _, _, rfl⟩
      · exact ht.sealedBy t' htm hdone
      · rw [hstate t] at hdone
        cases hdone
    · rcases ht.seals e he with ⟨j, hj, hid, hpoint, hs⟩
      exact ⟨j, hj, hid, hpoint, (hsealed _).mpr hs⟩
  refine ⟨htables, fun w hw => ?_, fun r hr => ?_, ?_, h.now⟩
  · have hframe : WorkerFrame w db (db.updateSnapshot id f) := by
      refine ⟨fun j hj ho => ⟨j, hj, ho, rfl, rfl, rfl, rfl, rfl, (not_congr (hjob j)).mpr,
        (hjob j).mpr, fun x hx hb => ?_⟩, fun x => (hsealed x).mpr, Nat.le_refl _⟩
      -- The failed snapshot is not this worker's.
      rcases hb with ⟨t, htm, hid, hbuilding⟩
      refine ⟨t, snapshot_other htm (fun e => ?_), hid, hbuilding⟩
      rcases hmine with ⟨j', hj', hpoint, hnone⟩
      rw [← hid, e] at hx
      rw [ht.pointed_eq hj hj' hx hpoint] at ho
      exact hnone w hw ho
    refine workerOk_frame hframe (h.workers w hw) (fun copy _ _ _ hstale => ?_)
    exact ⟨hstale.lapsed, hstale.unchanged⟩
  · have hframe : RequestFrame db (db.updateSnapshot id f) :=
      ⟨fun t ht hdone => ⟨t, hkeep t ht hdone, rfl, hdone, rfl⟩,
        fun j hj _ => ⟨j, hj, rfl, rfl, fun hc => hc⟩⟩
    exact requestOk_frame hframe (h.requests r hr)
  · exact ⟨h.since.terminal, h.since.cleared,
      fun x hd => ⟨(h.since.doomed x hd).row, (h.since.doomed x hd).unsealed⟩, h.since.seals,
      h.since.taken⟩

theorem transition_complete (now : Nat) : Transition (RiSnapshot.complete now) :=
  ⟨fun _ => rfl, fun _ => rfl, fun _ _ h => h⟩

theorem transition_fail (code : String) : Transition (RiSnapshot.fail code) :=
  ⟨fun _ => rfl, fun _ => rfl, fun _ _ h => h⟩

theorem transition_rejectSeal : Transition RiSnapshot.rejectSeal :=
  ⟨fun _ => rfl, fun _ => rfl, fun _ _ h => h⟩

/-- A seal completes one snapshot. -/
theorem sealed_completeSnapshot {jobId : Nat} (ht : t ∈ db.snapshots) (hid : t.snapshotId = id)
    (x : Nat) : Sealed (completeSnapshot db jobId id) x ↔ Sealed db x ∨ x = id := by
  constructor
  · rintro ⟨t', ht', hx, hdone⟩
    rcases snapshot_before ht' with ⟨htm, _⟩ | ⟨u, _, hu, rfl⟩
    · exact .inl ⟨t', htm, hx, hdone⟩
    · exact .inr (hx.symm.trans hu)
  · rintro (⟨u, hu, hx, hdone⟩ | rfl)
    · by_cases hux : u.snapshotId = id
      · exact ⟨_, snapshot_updated hu hux, hx, rfl⟩
      · exact ⟨u, snapshot_other hu hux, hx, hdone⟩
    · exact ⟨_, snapshot_updated ht hid, hid, rfl⟩

/-- The rule for a seal: by the owner of the job, whose cancellation has not
    been requested. -/
theorem inv_completeSnapshot {w : Nat} (h : Inv cfg s (.worker w) db) (hj : j ∈ db.jobs)
    (howned : j.ownedBy w = true) (hflag : j.cancelRequested = false)
    (hpoint : j.snapshotId = some id) : Inv cfg s (.worker w) (completeSnapshot db j.id id) := by
  have ht := h.tables
  have hrun := (ownedBy_iff.mp howned).1
  rcases ht.pointed j hj id hpoint with ⟨t, htm, hid, _⟩
  have hsealed : ∀ x, Sealed (completeSnapshot db j.id id) x ↔ Sealed db x ∨ x = id :=
    sealed_completeSnapshot htm hid
  have hmono : ∀ j', SealedJob db j' → SealedJob (completeSnapshot db j.id id) j' :=
    fun j' ⟨x, hx, hs⟩ => ⟨x, hx, (hsealed x).mpr (.inl hs)⟩
  rcases snapshots_updateSnapshot ht id (transition_complete db.now) with
    ⟨hids, hrows, hafter⟩
  have htables : Tables cfg (completeSnapshot db j.id id) := by
    refine ⟨ht.jobIds, ht.jobsOld, hids, fun t ht => (hrows t ht).1, ht.indexes, ht.wellFormed,
      ht.jobScope, fun t ht => (hrows t ht).2, fun j' hj' x hx => ?_, fun t' ht' hdone => ?_,
      fun j' hj' hc => hmono j' (ht.completedSealed j' hj' hc), fun e he => ?_, ht.claims,
      ht.claimsOld⟩
    · rcases ht.pointed j' hj' x hx with ⟨u, hu, hux, hrepo⟩
      rcases hafter u hu with ⟨u', hu', hux', hrepo'⟩
      exact ⟨u', hu', hux'.trans hux, hrepo'.trans hrepo⟩
    · rcases snapshot_before ht' with ⟨hu, _⟩ | ⟨u, _, hux, rfl⟩
      · rcases ht.sealedBy t' hu hdone with ⟨j', hj', hp', hstatus, hseal⟩
        exact ⟨j', hj', hp', hstatus, mem_append_left _ hseal⟩
      · exact ⟨j, hj, hpoint.trans (congrArg some hux.symm), .inl hrun,
          mem_append_right _ (mem_singleton.mpr (congrArg (Prod.mk j.id) hux))⟩
    · rcases mem_append.mp he with he | he
      · rcases ht.seals e he with ⟨j', hj', hid', hp', hs⟩
        exact ⟨j', hj', hid', hp', (hsealed _).mpr (.inl hs)⟩
      · rw [mem_singleton.mp he]
        exact ⟨j, hj, rfl, hpoint, (hsealed id).mpr (.inr rfl)⟩
  refine ⟨htables, fun w' hw => ?_, fun r hr => ?_, ?_, h.now⟩
  · -- The sealed snapshot is not another worker's.
    have hother : ∀ j' ∈ db.jobs, j'.ownedBy w' = true → j'.snapshotId ≠ some id := by
      intro j' hj' ho hp'
      rw [ht.pointed_eq hj' hj hp' hpoint, ownedBy_iff] at ho
      have hwk := (ownedBy_iff.mp howned).2
      rw [ho.2, Option.some.injEq] at hwk
      exact hw (congrArg Process.worker hwk.symm)
    have hframe : WorkerFrame w' db (completeSnapshot db j.id id) := by
      refine ⟨fun j' hj' ho => ⟨j', hj', ho, rfl, rfl, rfl, rfl, rfl, fun hns => ?_, hmono j',
        fun x hx hb => ?_⟩, fun x hs => (hsealed x).mpr (.inl hs), Nat.le_refl _⟩
      · rintro ⟨x, hx, hs⟩
        rcases (hsealed x).mp hs with hs | rfl
        · exact hns ⟨x, hx, hs⟩
        · exact hother j' hj' ho hx
      · rcases hb with ⟨u, hu, hux, hbuilding⟩
        refine ⟨u, snapshot_other hu (fun e => hother j' hj' ho ?_), hux, hbuilding⟩
        rw [hx, ← hux, e]
    refine workerOk_frame hframe (h.workers w' hw) (fun copy _ _ _ hstale => ?_)
    exact ⟨hstale.lapsed, hstale.unchanged⟩
  · have hframe : RequestFrame db (completeSnapshot db j.id id) := by
      refine ⟨fun u hu hdone => ?_, fun j' hj' _ => ⟨j', hj', rfl, rfl, fun hc => hc⟩⟩
      by_cases hux : u.snapshotId = id
      · exact ⟨_, snapshot_updated hu hux, rfl, rfl, rfl⟩
      · exact ⟨u, snapshot_other hu hux, rfl, hdone, rfl⟩
    exact requestOk_frame hframe (h.requests r hr)
  · refine ⟨h.since.terminal, h.since.cleared, fun x hd => ?_,
      fun e he => mem_append_left _ (h.since.seals e he), h.since.taken⟩
    have hd' := h.since.doomed x hd
    refine ⟨hd'.row, fun e he => ?_⟩
    rcases mem_append.mp he with he | he
    · exact hd'.unsealed e he
    · -- The job of the seal is running and its flag is not set.
      rw [mem_singleton.mp he]
      rintro rfl
      rcases hd'.row with ⟨j', hj', hid', _, hstatus⟩
      rw [ht.job_eq hj' hj hid', hflag, hrun] at hstatus
      rcases hstatus with e | e
      · cases e
      · cases e

/-- The rule for inserting a snapshot that is being built. -/
theorem inv_insertSnapshot (h : Inv cfg s p db) (hid : t.snapshotId = db.nextUuid)
    (hstate : t.state = .building) (hscope : t.InScope cfg) :
    Inv cfg s p { db with snapshots := db.snapshots ++ [t], nextUuid := db.nextUuid + 1 } := by
  have ht := h.tables
  have hmem : ∀ u, u ∈ db.snapshots ++ [t] ↔ u ∈ db.snapshots ∨ u = t := fun u => by
    rw [mem_append, mem_singleton]
  -- The new snapshot is not sealed, so the same jobs are.
  have hsealed : ∀ x, Sealed { db with
      snapshots := db.snapshots ++ [t], nextUuid := db.nextUuid + 1 } x ↔ Sealed db x := by
    intro x
    constructor
    · rintro ⟨u, hu, hx, hdone⟩
      rcases (hmem u).mp hu with hu | rfl
      · exact ⟨u, hu, hx, hdone⟩
      · rw [hstate] at hdone
        cases hdone
    · rintro ⟨u, hu, hx, hdone⟩
      exact ⟨u, (hmem u).mpr (.inl hu), hx, hdone⟩
  have hjob : ∀ j, SealedJob { db with
      snapshots := db.snapshots ++ [t], nextUuid := db.nextUuid + 1 } j ↔ SealedJob db j := fun j =>
    exists_congr (fun x => and_congr_right (fun _ => hsealed x))
  -- A snapshot is an old one or the new one, which no job has.
  have htables : Tables cfg { db with
      snapshots := db.snapshots ++ [t], nextUuid := db.nextUuid + 1 } := by
    refine ⟨ht.jobIds, fun j hj => Nat.lt_succ_of_lt (ht.jobsOld j hj), ?_, fun u hu => ?_,
      ht.indexes, ht.wellFormed, ht.jobScope, fun u hu => ?_, fun j hj x hx => ?_,
      fun u hu hdone => ?_, fun j hj hc => (hjob j).mpr (ht.completedSealed j hj hc),
      fun e he => ?_, ht.claims, fun x hx => Nat.lt_succ_of_lt (ht.claimsOld x hx)⟩
    · rw [map_append, nodup_append]
      refine ⟨ht.snapshotIds, nodup_singleton _, fun x hx y hy => ?_⟩
      rcases mem_map.mp hx with ⟨u, hu, rfl⟩
      have hlt := ht.snapshotsOld u hu
      simp only [map_cons, map_nil, mem_singleton] at hy
      omega
    · rcases (hmem u).mp hu with hu | rfl
      · exact Nat.lt_succ_of_lt (ht.snapshotsOld u hu)
      · rw [hid]
        exact Nat.lt_succ_self _
    · rcases (hmem u).mp hu with hu | rfl
      · exact ht.snapshotScope u hu
      · exact hscope
    · rcases ht.pointed j hj x hx with ⟨u, hu, hux, hrepo⟩
      exact ⟨u, (hmem u).mpr (.inl hu), hux, hrepo⟩
    · rcases (hmem u).mp hu with hu | rfl
      · exact ht.sealedBy u hu hdone
      · rw [hstate] at hdone
        cases hdone
    · rcases ht.seals e he with ⟨j, hj, hjid, hpoint, hs⟩
      exact ⟨j, hj, hjid, hpoint, (hsealed _).mpr hs⟩
  -- What a worker or a request reads of the old rows is unchanged.
  refine ⟨htables, fun w hw => ?_, fun r hr => ?_, ?_, h.now⟩
  · have hframe : WorkerFrame w db { db with
        snapshots := db.snapshots ++ [t], nextUuid := db.nextUuid + 1 } :=
      ⟨fun j hj ho => ⟨j, hj, ho, rfl, rfl, rfl, rfl, rfl, (not_congr (hjob j)).mpr,
        (hjob j).mpr, fun x _ ⟨u, hu, hux⟩ => ⟨u, (hmem u).mpr (.inl hu), hux⟩⟩,
        fun x => (hsealed x).mpr, Nat.le_refl _⟩
    exact workerOk_frame hframe (h.workers w hw) (fun copy _ _ _ hstale =>
      ⟨hstale.lapsed, hstale.unchanged⟩)
  · have hframe : RequestFrame db { db with
        snapshots := db.snapshots ++ [t], nextUuid := db.nextUuid + 1 } :=
      ⟨fun u hu hdone => ⟨u, (hmem u).mpr (.inl hu), rfl, hdone, rfl⟩,
        fun j hj _ => ⟨j, hj, rfl, rfl, fun hc => hc⟩⟩
    exact requestOk_frame hframe (h.requests r hr)
  · exact ⟨h.since.terminal, h.since.cleared,
      fun x hd => ⟨(h.since.doomed x hd).row, (h.since.doomed x hd).unsealed⟩, h.since.seals,
      h.since.taken⟩

/-- The rule for inserting a queued job, if the unique indexes let it in. -/
theorem inv_insertJob (h : Inv cfg s p db) (hid : j.id = db.nextUuid) (hstatus : j.status = .queued)
    (hsnap : j.snapshotId = none) (hattempt : j.attempt = 0) (hwell : j.WellFormed)
    (hscope : j.InScope cfg) (hindexes : indexesHold (db.jobs ++ [j]) = true) :
    Inv cfg s p { db with jobs := db.jobs ++ [j], nextUuid := db.nextUuid + 1 } := by
  have ht := h.tables
  have hmem : ∀ x, x ∈ db.jobs ++ [j] ↔ x ∈ db.jobs ∨ x = j := fun x => by
    rw [mem_append, mem_singleton]
  have hworker : j.workerId = none := (hwell.worker_none (by rw [hstatus]; simp)).1
  -- A row is an old one or the new one, which is queued and has no snapshot.
  have htables : Tables cfg { db with jobs := db.jobs ++ [j], nextUuid := db.nextUuid + 1 } := by
    refine ⟨?_, fun x hx => ?_, ht.snapshotIds,
      fun t htm => Nat.lt_succ_of_lt (ht.snapshotsOld t htm), hindexes, fun x hx => ?_,
      fun x hx => ?_, ht.snapshotScope, fun x hx y hy => ?_, fun t htm hdone => ?_,
      fun x hx hc => ?_, fun e he => ?_, fun x hx => ?_,
      fun x hx => Nat.lt_succ_of_lt (ht.claimsOld x hx)⟩
    · rw [map_append, nodup_append]
      refine ⟨ht.jobIds, nodup_singleton _, fun x hx y hy => ?_⟩
      rcases mem_map.mp hx with ⟨u, hu, rfl⟩
      have hlt := ht.jobsOld u hu
      simp only [map_cons, map_nil, mem_singleton] at hy
      omega
    · rcases (hmem x).mp hx with hx | rfl
      · exact Nat.lt_succ_of_lt (ht.jobsOld x hx)
      · rw [hid]
        exact Nat.lt_succ_self _
    · rcases (hmem x).mp hx with hx | rfl
      · exact ht.wellFormed x hx
      · exact hwell
    · rcases (hmem x).mp hx with hx | rfl
      · exact ht.jobScope x hx
      · exact hscope
    · rcases (hmem x).mp hx with hx | rfl
      · exact ht.pointed x hx y hy
      · rw [hsnap] at hy
        cases hy
    · rcases ht.sealedBy t htm hdone with ⟨x, hx, hrest⟩
      exact ⟨x, (hmem x).mpr (.inl hx), hrest⟩
    · rcases (hmem x).mp hx with hx | rfl
      · exact ht.completedSealed x hx hc
      · rw [hstatus] at hc
        cases hc
    · rcases ht.seals e he with ⟨x, hx, hrest⟩
      exact ⟨x, (hmem x).mpr (.inl hx), hrest⟩
    · rcases (hmem x).mp hx with hx | rfl
      · exact ht.claims x hx
      · -- A new identifier was never claimed.
        rw [hattempt, count_eq_zero]
        intro hc
        have := ht.claimsOld _ hc
        omega
  -- No worker owns the new row, and no request waits for it.
  refine ⟨htables, fun w hw => ?_, fun r hr => ?_, ?_, h.now⟩
  · have hframe : WorkerFrame w db
        { db with jobs := db.jobs ++ [j], nextUuid := db.nextUuid + 1 } := by
      refine ⟨fun x hx ho => ?_, fun _ hs => hs, Nat.le_refl _⟩
      rcases (hmem x).mp hx with hx | rfl
      · exact ⟨x, hx, ho, rfl, rfl, rfl, rfl, rfl, fun hs => hs, fun hs => hs, fun _ _ hb => hb⟩
      · rw [ownedBy_iff, hstatus] at ho
        cases ho.1
    refine workerOk_frame hframe (h.workers w hw) (fun copy _ _ _ hstale => ?_)
    refine ⟨hstale.lapsed, fun x hx hxid hrun => ?_⟩
    rcases (hmem x).mp hx with hx | rfl
    · exact hstale.unchanged x hx hxid hrun
    · rw [hstatus] at hrun
      cases hrun
  · have hframe : RequestFrame db { db with jobs := db.jobs ++ [j], nextUuid := db.nextUuid + 1 } :=
      ⟨fun t htm hdone => ⟨t, htm, rfl, hdone, rfl⟩,
        fun x hx _ => ⟨x, (hmem x).mpr (.inl hx), rfl, rfl, fun hc => hc⟩⟩
    exact requestOk_frame hframe (h.requests r hr)
  · refine ⟨fun x hx hterm => ?_, fun x hx hflag => ?_, fun x hd => ?_, h.since.seals,
      fun x hx v hv u hne => ?_⟩
    · rcases h.since.terminal x hx hterm with ⟨y, hy, hrest⟩
      exact ⟨y, (hmem y).mpr (.inl hy), hrest⟩
    · rcases h.since.cleared x hx hflag with ⟨y, hy, hrest⟩
      exact ⟨y, (hmem y).mpr (.inl hy), hrest⟩
    · rcases h.since.doomed x hd with ⟨⟨y, hy, hrest⟩, hun⟩
      exact ⟨⟨y, (hmem y).mpr (.inl hy), hrest⟩, hun⟩
    · rcases (hmem x).mp hx with hx | rfl
      · exact h.since.taken x hx v hv u hne
      · rw [hworker] at hv
        cases hv

end Snapshots

end Jobs

end Partha
