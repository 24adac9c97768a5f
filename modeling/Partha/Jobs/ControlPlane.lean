import Mathlib.Data.List.MinMax
import Mathlib.Data.List.Nodup
import Partha.Library.Rows

/-!
# Job Control Plane

The rows of `analysis_jobs` and `ri_snapshots`, and the compare-and-swap
updates of `DatabaseAnalysisControlPlane` on them.

A job is owned by whoever its row names while it is `running`. Every mutation
by a worker is an `UPDATE` guarded by that ownership, and a worker learns
whether it still owns the job from the number of rows the guard matched:
`updateOwned` is `none` when it matched none. `claim` and `reclaim` are the two
updates that give a job an owner. The first is guarded by `queued`, the second
by the exact owner and lease that were read, and by that lease having lapsed.

The unique indexes are checked where the database checks them, on the table a
commit would leave: `indexesHold` for the jobs and `identitiesHold` for the
snapshots.

The progress columns of the repository record, which the workers write for the
user interface, are not part of the model. One test reads them, and there the
model leaves the outcome open. Columns that nothing reads (`updated_at`,
`revision_kind`) are left out.

`claims` and `seals` are not columns. They record which jobs were claimed and
which job sealed which snapshot, so that facts about all time can be stated.

## Main definitions

* `AnalysisJob`, `RiSnapshot`: The rows.
* `Settings`: What the processes are configured with.
* `Database`: The committed rows.
* `nextEligibleJobId`, `claim`, `renew`, `expiredJobIds`, `reclaim`,
  `updateOwned`, `cancelRequested`: The operations of the control plane.
* `markFailed`, `completeSnapshot`: The transitions of a snapshot.
-/

namespace Partha

namespace Jobs

inductive JobStatus where
  | queued
  | running
  | completed
  | failed
  | cancelled
  deriving DecidableEq, Repr

/-- The statuses a job never leaves. -/
def JobStatus.terminal : JobStatus → Bool
  | .completed | .failed | .cancelled => true
  | .queued | .running => false

/-- The statuses of `uq_analysis_jobs_effective_identity`. -/
def JobStatus.effective : JobStatus → Bool
  | .queued | .running | .completed => true
  | .failed | .cancelled => false

inductive SnapshotState where
  | building
  | completed
  | failed
  deriving DecidableEq, Repr

structure AnalysisJob where
  id : Nat
  repositoryId : Nat
  ownerId : Nat
  revisionValue : String
  configHash : String
  status : JobStatus
  stage : Option String
  progress : Nat
  attempt : Nat
  maxAttempts : Nat
  cancelRequested : Bool
  workerId : Option Nat
  leaseExpiresAt : Option Nat
  nextAttemptAt : Option Nat
  snapshotId : Option Nat
  errorCode : Option String
  errorMessage : Option String
  createdAt : Nat
  startedAt : Option Nat
  completedAt : Option Nat
  deriving DecidableEq, Repr

/-- The columns of a snapshot that the jobs depend on. -/
structure RiSnapshot where
  snapshotId : Nat
  repositoryId : Nat
  revisionValue : String
  schemaVersion : String
  producerSetHash : String
  configHash : String
  state : SnapshotState
  failureCode : Option String
  createdAt : Nat
  sealedAt : Option Nat
  deriving DecidableEq, Repr

/-- The columns of a repository that submission and execution read. -/
structure RepositoryRecord where
  ownerId : Nat
  revisionValue : Option String
  deriving DecidableEq, Repr

/-- The parties: workers, by their distinct `worker_id`, and API requests. -/
inductive Process where
  | worker (w : Nat)
  | request (r : Nat)
  deriving DecidableEq, Repr

/-- What the processes are configured with. `producerSet` is the hash of
    `ANALYSIS_PRODUCER_VERSION_SET` in the build that a process runs. -/
structure Settings where
  leaseSeconds : Nat
  schemaVersion : String
  configHash : String
  producerSet : Process → String
  repositories : Nat → Option RepositoryRecord

/-- The semantic identity of a snapshot. -/
structure SnapshotIdentity where
  repositoryId : Nat
  revisionValue : String
  schemaVersion : String
  producerSetHash : String
  configHash : String
  deriving DecidableEq, Repr

def RiSnapshot.identity (t : RiSnapshot) : SnapshotIdentity :=
  { repositoryId := t.repositoryId
    revisionValue := t.revisionValue
    schemaVersion := t.schemaVersion
    producerSetHash := t.producerSetHash
    configHash := t.configHash }

/-- The columns of `uq_analysis_jobs_effective_identity`. -/
structure JobIdentity where
  repositoryId : Nat
  revisionValue : String
  configHash : String
  deriving DecidableEq, Repr

def AnalysisJob.identity (j : AnalysisJob) : JobIdentity :=
  { repositoryId := j.repositoryId
    revisionValue := j.revisionValue
    configHash := j.configHash }

/-- The committed rows, the clock, and what was claimed and sealed so far. -/
structure Database where
  now : Nat
  jobs : List AnalysisJob
  snapshots : List RiSnapshot
  nextUuid : Nat
  claims : List Nat
  seals : List (Nat × Nat)

/-- Worker `w` owns the running job. -/
def AnalysisJob.ownedBy (w : Nat) (j : AnalysisJob) : Bool :=
  j.status = .running ∧ j.workerId = some w

/-- `uq_analysis_jobs_snapshot_id` and `uq_analysis_jobs_effective_identity`. -/
def indexesHold (jobs : List AnalysisJob) : Bool :=
  (jobs.filterMap (·.snapshotId)).Nodup ∧
    ((jobs.filter (·.status.effective)).map AnalysisJob.identity).Nodup

/-- `uq_ri_snapshots_completed_identity`. -/
def identitiesHold (snapshots : List RiSnapshot) : Bool :=
  ((snapshots.filter (fun t => t.state = .completed)).map RiSnapshot.identity).Nodup

namespace Database

/-- `session.get(AnalysisJob, id)`. -/
def job (db : Database) (id : Nat) : Option AnalysisJob :=
  db.jobs.find? (fun j => j.id = id)

/-- `session.get(RiSnapshot, id)`. -/
def snapshot (db : Database) (id : Nat) : Option RiSnapshot :=
  db.snapshots.find? (fun t => t.snapshotId = id)

/-- `UPDATE analysis_jobs SET ... WHERE`, with the number of rows it matched
    told apart as none or some. -/
def updateJobs (db : Database) (guard : AnalysisJob → Bool) (values : AnalysisJob → AnalysisJob) :
    Option Database :=
  if Rows.rowcount guard db.jobs = 0 then none
  else some { db with jobs := Rows.updateWhere guard values db.jobs }

/-- `UPDATE ri_snapshots SET ... WHERE snapshot_id = id`. -/
def updateSnapshot (db : Database) (id : Nat) (values : RiSnapshot → RiSnapshot) : Database :=
  { db with snapshots := Rows.updateWhere (fun t => t.snapshotId = id) values db.snapshots }

end Database

/-- The column values of a claim. -/
def AnalysisJob.claim (w now expiresAt : Nat) (j : AnalysisJob) : AnalysisJob :=
  { j with
    status := .running
    workerId := some w
    leaseExpiresAt := some expiresAt
    startedAt := j.startedAt.or (some now)
    attempt := j.attempt + 1
    nextAttemptAt := none }

/-- The column values of a renewal. -/
def AnalysisJob.renew (expiresAt : Nat) (j : AnalysisJob) : AnalysisJob :=
  { j with leaseExpiresAt := some expiresAt }

/-- The column values of a reclaim. -/
def AnalysisJob.reclaim (w expiresAt : Nat) (j : AnalysisJob) : AnalysisJob :=
  { j with workerId := some w, leaseExpiresAt := some expiresAt }

/-- `next_eligible_job_id`: the oldest queued job whose backoff has passed. -/
def nextEligibleJobId (db : Database) : Option Nat :=
  ((db.jobs.filter (fun j => j.status = .queued ∧ ∀ t ∈ j.nextAttemptAt, t ≤ db.now)).argmin
    (·.createdAt)).map (·.id)

/-- The guarded update and commit of `claim`. -/
def claim (cfg : Settings) (db : Database) (w candidateId now : Nat) : Option Database :=
  (db.updateJobs (fun j => j.id = candidateId ∧ j.status = .queued)
    (AnalysisJob.claim w now (now + cfg.leaseSeconds))).map
      (fun db' => { db' with claims := db'.claims ++ [candidateId] })

/-- The guarded update and commit of `renew`. The second component is the
    cancellation flag it reads back. -/
def renew (cfg : Settings) (db : Database) (w jobId : Nat) : Option (Database × Bool) :=
  (db.updateJobs (fun j => j.id = jobId ∧ j.ownedBy w)
    (AnalysisJob.renew (db.now + cfg.leaseSeconds))).map
      (fun db' => (db', ((db'.job jobId).map (·.cancelRequested)).getD false))

/-- `lease_expired`. -/
def leaseExpired (leaseExpiresAt now : Nat) : Bool :=
  leaseExpiresAt < now

/-- `expired_job_ids`: running jobs whose lease has lapsed, oldest lapse first. -/
def expiredJobIds (db : Database) (now : Nat) : List Nat :=
  ((db.jobs.filter (fun j => j.status = .running ∧ ∃ t ∈ j.leaseExpiresAt, t < now)).mergeSort
    (fun j j' => j.leaseExpiresAt.getD 0 < j'.leaseExpiresAt.getD 0 ∨
      j.leaseExpiresAt.getD 0 = j'.leaseExpiresAt.getD 0 ∧ j.createdAt ≤ j'.createdAt)).map (·.id)

/-- The guarded update of `reclaim`. It does not commit. -/
def reclaim (cfg : Settings) (db : Database) (w : Nat) (copy : AnalysisJob) : Option Database :=
  db.updateJobs (fun j => j.id = copy.id ∧ j.status = .running ∧ j.workerId = copy.workerId ∧
      j.leaseExpiresAt = copy.leaseExpiresAt ∧ ∃ t ∈ j.leaseExpiresAt, t < db.now)
    (AnalysisJob.reclaim w (db.now + cfg.leaseSeconds))

/-- `update_owned`. It does not commit, and is `none` when ownership was lost. -/
def updateOwned (db : Database) (jobId w : Nat) (requireCancelNotRequested : Bool)
    (values : AnalysisJob → AnalysisJob) : Option Database :=
  db.updateJobs (fun j => j.id = jobId ∧ j.ownedBy w ∧
    (requireCancelNotRequested = true → j.cancelRequested = false)) values

/-- `cancel_requested`. -/
def cancelRequested (db : Database) (jobId : Nat) : Bool :=
  ((db.job jobId).map (·.cancelRequested)).getD false

/-- The column values of `mark_failed`. -/
def RiSnapshot.fail (code : String) (t : RiSnapshot) : RiSnapshot :=
  { t with state := .failed, failureCode := some code }

/-- The column values of a seal. -/
def RiSnapshot.complete (now : Nat) (t : RiSnapshot) : RiSnapshot :=
  { t with state := .completed, sealedAt := some now }

/-- `mark_failed` and its commit. -/
def markFailed (db : Database) (id : Nat) (code : String) : Database :=
  db.updateSnapshot id (RiSnapshot.fail code)

/-- The transition of a seal to `completed` by job `jobId`. -/
def completeSnapshot (db : Database) (jobId id : Nat) : Database :=
  { db.updateSnapshot id (RiSnapshot.complete db.now) with seals := db.seals ++ [(jobId, id)] }

/-- `find_completed`. The unique index leaves it at most one row to find. -/
def findCompleted (db : Database) (identity : SnapshotIdentity) : Option RiSnapshot :=
  db.snapshots.find? (fun t => t.identity = identity ∧ t.state = .completed)

/-- The semantic identity that a process of this build gives its analysis. -/
def Settings.identity (cfg : Settings) (p : Process) (repositoryId : Nat)
    (revisionValue : String) : SnapshotIdentity :=
  { repositoryId := repositoryId
    revisionValue := revisionValue
    schemaVersion := cfg.schemaVersion
    producerSetHash := cfg.producerSet p
    configHash := cfg.configHash }

end Jobs

end Partha
