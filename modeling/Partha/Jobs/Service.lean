import Mathlib.Logic.Function.Iterate
import Partha.Jobs.Worker
import Partha.Library.Steps

/-!
# Analysis Job Service

`AnalysisJobService`: submission, status and cancellation, and the system they
form with the workers.

A request reads and writes with no lock between its statements, so each of them
is a step. Submission and status end by making a completed snapshot
authoritative over the job row they found. `reconcile` writes that row through
the session, and a session writes the columns that differ from what it loaded:
the row is not guarded, and what was loaded may have changed since.

Cancellation is guarded by the status it has read. When a worker claims the job
in between, the guard matches nothing, the row is read again, and the flag is
set on the running job instead.

`_CANCEL_LOCK_ATTEMPTS` repeats a cancellation that SQLite turned away. Nothing
was written then, so that is the same as another request.

## Main definitions

* `Scope`: The repository of a request, as its owner sees it.
* `Request`: Where a request stands.
* `jobForSnapshot`, `activeJob`, `effectiveJob`, `latestJob`: The lookups.
* `insertQueued`, `insertCompleted`, `reconcile`, `cancelQueued`,
  `requestCancel`: The transactions.
* `requestNext`: The next step of a request.
* `State`, `step`, `analysis`: The system of all workers and requests.
* `submitAlone`: A submission that nothing interleaves with.
-/

namespace Partha

namespace Jobs

/-- The repository of a request: `_get_record` and `_require_revision` have
    found it, with this owner and this revision. -/
structure Scope where
  repositoryId : Nat
  ownerId : Nat
  revisionValue : String
  deriving DecidableEq, Repr

/-- Where a request stands, by the last step it took. -/
inductive Request where
  | idle
  | submitting (scope : Scope)
  | asking (scope : Scope)
  | submitFound (scope : Scope) (snapshot : RiSnapshot)
  | statusFound (scope : Scope) (snapshot : RiSnapshot)
  | statusUnmatched (scope : Scope) (snapshot : RiSnapshot)
  | submitAbsent (scope : Scope)
  | statusAbsent (scope : Scope)
  | insertingQueued (scope : Scope)
  | queuedConflict (scope : Scope)
  | queuedConflictRead (scope : Scope) (snapshot : Option RiSnapshot)
  | insertingCompleted (scope : Scope) (snapshot : RiSnapshot)
  | completedConflict (scope : Scope) (snapshot : RiSnapshot)
  | completedUnmatched (scope : Scope) (snapshot : RiSnapshot)
  | reconciling (copy : AnalysisJob) (snapshot : RiSnapshot)
  | cancelling (copy : AnalysisJob)
  | cancelMissed (jobId : Nat)
  | flagging (copy : AnalysisJob)
  | returned (job : Option AnalysisJob)
  | cancelAccepted (jobId : Nat)
  | failed
  deriving DecidableEq, Repr

/-- The row that the queries of the service pick: the newest that matches. -/
def newestJob (db : Database) (matching : AnalysisJob → Bool) : Option AnalysisJob :=
  (db.jobs.filter matching).argmax (·.createdAt)

/-- `_latest_job`. -/
def latestJob (db : Database) (repositoryId ownerId : Nat) : Option AnalysisJob :=
  newestJob db (fun j => j.repositoryId = repositoryId ∧ j.ownerId = ownerId)

/-- `_active_job`. -/
def activeJob (cfg : Settings) (db : Database) (scope : Scope) : Option AnalysisJob :=
  newestJob db (fun j => j.repositoryId = scope.repositoryId ∧ j.ownerId = scope.ownerId ∧
    j.configHash = cfg.configHash ∧ (j.status = .queued ∨ j.status = .running))

/-- `_effective_job`. -/
def effectiveJob (cfg : Settings) (db : Database) (scope : Scope) : Option AnalysisJob :=
  newestJob db (fun j => j.repositoryId = scope.repositoryId ∧ j.ownerId = scope.ownerId ∧
    j.configHash = cfg.configHash ∧ j.status.effective)

/-- `_job_for_snapshot`. -/
def jobForSnapshot (db : Database) (scope : Scope) (snapshotId : Nat) : Option AnalysisJob :=
  newestJob db (fun j => j.repositoryId = scope.repositoryId ∧ j.ownerId = scope.ownerId ∧
    j.snapshotId = some snapshotId)

/-- `_completed_snapshot`, for the producer set of this request's build. -/
def completedSnapshot (cfg : Settings) (r : Nat) (db : Database) (scope : Scope) :
    Option RiSnapshot :=
  findCompleted db (cfg.identity (.request r) scope.repositoryId scope.revisionValue)

/-- The row of `_insert_queued_job`. -/
def queuedJob (cfg : Settings) (db : Database) (scope : Scope) : AnalysisJob :=
  { id := db.nextUuid
    repositoryId := scope.repositoryId
    ownerId := scope.ownerId
    revisionValue := scope.revisionValue
    configHash := cfg.configHash
    status := .queued
    stage := none
    progress := 0
    attempt := 0
    maxAttempts := 3
    cancelRequested := false
    workerId := none
    leaseExpiresAt := none
    nextAttemptAt := none
    snapshotId := none
    errorCode := none
    errorMessage := none
    createdAt := db.now
    startedAt := none
    completedAt := none }

/-- The row of `_insert_completed_job`. -/
def completedJob (cfg : Settings) (db : Database) (scope : Scope) (t : RiSnapshot) : AnalysisJob :=
  { queuedJob cfg db scope with
    status := .completed
    stage := some "completed"
    progress := 100
    snapshotId := some t.snapshotId
    startedAt := some t.createdAt
    completedAt := some (t.sealedAt.getD db.now) }

/-- An insertion and its commit, which the unique indexes may refuse. -/
def insertJob (db : Database) (j : AnalysisJob) : Option Database :=
  if indexesHold (db.jobs ++ [j]) then
    some { db with jobs := db.jobs ++ [j], nextUuid := db.nextUuid + 1 }
  else none

/-- The test of `_reconcile_completed_job` that the job row is settled. -/
def AnalysisJob.settled (j : AnalysisJob) (t : RiSnapshot) : Bool :=
  j.status = .completed ∧ j.stage = some "completed" ∧ j.progress = 100 ∧
    j.snapshotId = some t.snapshotId ∧ j.cancelRequested = false ∧ j.workerId = none ∧
    j.leaseExpiresAt = none ∧ j.nextAttemptAt = none ∧ j.errorCode = none ∧
    j.errorMessage = none ∧ j.completedAt.isSome

/-- A session writes an attribute when it was set to a value that differs from
    the one loaded. -/
def flushed {α : Type} [DecidableEq α] (loaded value row : α) : α :=
  if loaded = value then row else value

/-- The columns that `_reconcile_completed_job` writes, given what the session
    had loaded. -/
def AnalysisJob.reconcile (copy : AnalysisJob) (t : RiSnapshot) (now : Nat) (j : AnalysisJob) :
    AnalysisJob :=
  { j with
    status := flushed copy.status .completed j.status
    stage := flushed copy.stage (some "completed") j.stage
    progress := flushed copy.progress 100 j.progress
    snapshotId := flushed copy.snapshotId (some t.snapshotId) j.snapshotId
    cancelRequested := flushed copy.cancelRequested false j.cancelRequested
    workerId := flushed copy.workerId none j.workerId
    leaseExpiresAt := flushed copy.leaseExpiresAt none j.leaseExpiresAt
    nextAttemptAt := flushed copy.nextAttemptAt none j.nextAttemptAt
    errorCode := flushed copy.errorCode none j.errorCode
    errorMessage := flushed copy.errorMessage none j.errorMessage
    startedAt := flushed copy.startedAt (copy.startedAt.or (some t.createdAt)) j.startedAt
    completedAt := flushed copy.completedAt (some (t.sealedAt.getD now)) j.completedAt }

/-- The commit of `_reconcile_completed_job`. It is not guarded. -/
def reconcile (db : Database) (copy : AnalysisJob) (t : RiSnapshot) : Option Database :=
  let jobs := Rows.updateWhere (fun j => j.id = copy.id) (AnalysisJob.reconcile copy t db.now)
    db.jobs
  if indexesHold jobs then some { db with jobs := jobs } else none

/-- The column values of the cancellation of a queued job. -/
def AnalysisJob.cancelQueued (now : Nat) (j : AnalysisJob) : AnalysisJob :=
  { j.cancel now with cancelRequested := false }

/-- The column values of the cancellation of a running job. -/
def AnalysisJob.flag (j : AnalysisJob) : AnalysisJob :=
  { j with cancelRequested := true }

/-- `_cancel_job` on a queued job. -/
def cancelQueued (db : Database) (copy : AnalysisJob) : Option Database :=
  db.updateJobs (fun j => j.id = copy.id ∧ j.ownerId = copy.ownerId ∧ j.status = .queued)
    (AnalysisJob.cancelQueued db.now)

/-- `_cancel_job` on a running job. -/
def requestCancel (db : Database) (copy : AnalysisJob) : Option Database :=
  db.updateJobs (fun j => j.id = copy.id ∧ j.ownerId = copy.ownerId ∧ j.status = .running)
    AnalysisJob.flag

/-- The next step of a request. `recordSettled` is what
    `_reconcile_completed_job` finds in the repository record. -/
def requestNext (cfg : Settings) (r : Nat) (db : Database) (recordSettled : Bool) :
    Request → Database × Request
  | .submitting scope => match completedSnapshot cfg r db scope with
    | some t => (db, .submitFound scope t)
    | none => (db, .submitAbsent scope)
  | .asking scope => match completedSnapshot cfg r db scope with
    | some t => (db, .statusFound scope t)
    | none => (db, .statusAbsent scope)
  | .submitFound scope t => match jobForSnapshot db scope t.snapshotId with
    | some j => (db, .reconciling j t)
    | none => (db, .insertingCompleted scope t)
  | .statusFound scope t => match jobForSnapshot db scope t.snapshotId with
    | some j => (db, .reconciling j t)
    | none => (db, .statusUnmatched scope t)
  | .statusUnmatched scope t => match effectiveJob cfg db scope with
    | some j => (db, .reconciling j t)
    | none => (db, .insertingCompleted scope t)
  | .submitAbsent scope => match activeJob cfg db scope with
    | some j => (db, .returned (some j))
    | none => (db, .insertingQueued scope)
  | .statusAbsent scope => (db, .returned (latestJob db scope.repositoryId scope.ownerId))
  | .insertingQueued scope => match insertJob db (queuedJob cfg db scope) with
    | some db' => (db', .returned (some (queuedJob cfg db scope)))
    | none => (db, .queuedConflict scope)
  | .queuedConflict scope => (db, .queuedConflictRead scope (completedSnapshot cfg r db scope))
  | .queuedConflictRead scope snapshot => match snapshot, effectiveJob cfg db scope with
    | some t, some j => (db, .reconciling j t)
    | none, some j => (db, .returned (some j))
    | _, none => (db, .failed)
  | .insertingCompleted scope t => match insertJob db (completedJob cfg db scope t) with
    | some db' => (db', .returned (some (completedJob cfg db scope t)))
    | none => (db, .completedConflict scope t)
  | .completedConflict scope t => match jobForSnapshot db scope t.snapshotId with
    | some j => (db, .reconciling j t)
    | none => (db, .completedUnmatched scope t)
  | .completedUnmatched scope t => match effectiveJob cfg db scope with
    | some j => (db, .reconciling j t)
    | none => (db, .failed)
  | .reconciling copy t =>
    if copy.settled t && recordSettled then (db, .returned (some copy))
    else match reconcile db copy t with
      | some db' => (db', .returned (db'.job copy.id))
      | none => (db, .failed)
  | .cancelling copy => match copy.status with
    | .queued => match cancelQueued db copy with
      | some db' => (db', .cancelAccepted copy.id)
      | none => (db, .cancelMissed copy.id)
    | .running => (db, .flagging copy)
    | _ => (db, .failed)
  | .cancelMissed jobId => match db.job jobId with
    | some j => if j.status = .running then (db, .flagging j) else (db, .failed)
    | none => (db, .failed)
  | .flagging copy => match requestCancel db copy with
    | some db' => (db', .cancelAccepted copy.id)
    | none => (db, .failed)
  | .idle => (db, .idle)
  | .returned job => (db, .returned job)
  | .cancelAccepted jobId => (db, .cancelAccepted jobId)
  | .failed => (db, .failed)

/-- `_get_record` and `_require_revision`. -/
def findScope (cfg : Settings) (repositoryId ownerId : Nat) : Option Scope :=
  match cfg.repositories repositoryId with
  | some record =>
    if record.ownerId = ownerId then record.revisionValue.map (fun v => ⟨repositoryId, ownerId, v⟩)
    else none
  | none => none

/-- `cancel`, up to its first read of the job. -/
def beginCancel (cfg : Settings) (db : Database) (repositoryId ownerId : Nat) : Request :=
  match cfg.repositories repositoryId with
  | some record =>
    if record.ownerId = ownerId then
      match latestJob db repositoryId ownerId with
      | some j => .cancelling j
      | none => .failed
    else .failed
  | none => .failed

/-- Every step a request can take. -/
inductive RequestAction where
  | submit (repositoryId ownerId : Nat)
  | status (repositoryId ownerId : Nat)
  | cancel (repositoryId ownerId : Nat)
  | next (recordSettled : Bool)
  | crash
  deriving DecidableEq, Repr

def requestStep (cfg : Settings) (r : Nat) (db : Database) (q : Request) :
    RequestAction → Option (Database × Request)
  | .submit repositoryId ownerId => match q with
    | .idle => some (db, (findScope cfg repositoryId ownerId).elim .failed .submitting)
    | _ => none
  | .status repositoryId ownerId => match q with
    | .idle => some (db, (findScope cfg repositoryId ownerId).elim .failed .asking)
    | _ => none
  | .cancel repositoryId ownerId => match q with
    | .idle => some (db, beginCancel cfg db repositoryId ownerId)
    | _ => none
  | .next recordSettled => some (requestNext cfg r db recordSettled q)
  | .crash => match q with
    | .returned _ | .cancelAccepted _ => none
    | _ => some (db, .failed)

/-- The committed rows, and where every worker and every request stands. -/
structure State where
  db : Database
  worker : Nat → Activity
  request : Nat → Request

def State.setWorker (s : State) (w : Nat) (db : Database) (q : Activity) : State :=
  { s with db := db, worker := fun w' => if w' = w then q else s.worker w' }

def State.setRequest (s : State) (r : Nat) (db : Database) (q : Request) : State :=
  { s with db := db, request := fun r' => if r' = r then q else s.request r' }

/-- A step of the system. -/
inductive Action where
  | tick
  | worker (w : Nat) (action : WorkerAction)
  | request (r : Nat) (action : RequestAction)
  deriving DecidableEq, Repr

def step (cfg : Settings) (s : State) : Action → Option State
  | .tick => some { s with db := { s.db with now := s.db.now + 1 } }
  | .worker w action => (workerStep cfg w s.db (s.worker w) action).map
      (fun result => s.setWorker w result.1 result.2)
  | .request r action => (requestStep cfg r s.db (s.request r) action).map
      (fun result => s.setRequest r result.1 result.2)

/-- No job, no snapshot, and nothing running. -/
def initial : State :=
  { db := { now := 0, jobs := [], snapshots := [], nextUuid := 0, claims := [], seals := [] }
    worker := fun _ => .idle
    request := fun _ => .idle }

/-- Any number of workers and requests, in any interleaving. -/
def analysis (cfg : Settings) : StepSystem State Action :=
  { init := fun s => s = initial
    step := step cfg }

/-- `submit`, when no other step falls between its statements. The longest of
    its paths has six. -/
def submitAlone (cfg : Settings) (r : Nat) (db : Database) (recordSettled : Bool)
    (repositoryId ownerId : Nat) : Database × Request :=
  (fun p => requestNext cfg r p.1 recordSettled p.2)^[6]
    (db, (findScope cfg repositoryId ownerId).elim .failed .submitting)

end Jobs

end Partha
