import Mathlib.Algebra.Group.Nat.Defs
import Partha.Jobs.ControlPlane

/-!
# Analysis Worker

`AnalysisWorker`: the stage pipeline of one job, its exits, and the sweep of
stale jobs.

A worker is a program whose statements on the database are steps. A step is a
transaction up to its commit, or a read outside of one. Between two steps
anything may happen to the rows, and what the worker remembers of them is in
its `Activity`. `StageContext` is what it remembers of its job: the attempt and
the snapshot that the session has loaded, which are not looked up again until a
rollback.

`next` takes the next step in program order. Everything that cuts the order
short is a step of its own: a heartbeat renews the lease and may leave a
signal, a check raises on a signal, a statement raises an exception, a process
crashes. A signal may arrive at any moment, so a step may be taken between the
signal and the check that sees it.

The two exits that fail a snapshot commit twice. `mark_failed` owns a commit,
and the job is settled by another transaction, which has to find out again
whether the worker still owns it. `cancelMarked`, `failMarked` and
`staleMarked` are the stands between the two.

The row that `begin` inserts is invisible until the checkpoint of the first
stage commits, so the model draws its identifier there. `opened` says that the
row is in the open transaction.

## Main definitions

* `StageContext`: What a worker remembers of its job.
* `Activity`: Where a worker stands.
* `stageOpenSnapshot`, `stageSeal`, `checkpoint`, `complete`, `cancel`,
  `retryOrFail`, `reconcileStale`: The transactions.
* `next`: The next step in program order.
* `workerStep`: Every step a worker can take.
-/

namespace Partha

namespace Jobs

/-- The stages of `_execute_stages`. -/
inductive Stage where
  | openSnapshot
  | extract
  | sealSnapshot
  deriving DecidableEq, Repr

def Stage.name : Stage → String
  | .openSnapshot => "extracting-modules"
  | .extract => "building-dependency-graph"
  | .sealSnapshot => "preparing-architecture"

def Stage.progress : Stage → Nat
  | .openSnapshot => 35
  | .extract => 75
  | .sealSnapshot => 90

def Stage.next : Stage → Option Stage
  | .openSnapshot => some .extract
  | .extract => some .sealSnapshot
  | .sealSnapshot => none

/-- What a worker remembers of its job. -/
structure StageContext where
  jobId : Nat
  repositoryId : Nat
  attempt : Nat
  maxAttempts : Nat
  snapshotId : Option Nat
  opened : Bool
  reused : Bool
  deriving DecidableEq, Repr

/-- The context of a job that was just loaded. -/
def AnalysisJob.context (j : AnalysisJob) : StageContext :=
  { jobId := j.id
    repositoryId := j.repositoryId
    attempt := j.attempt
    maxAttempts := j.maxAttempts
    snapshotId := j.snapshotId
    opened := false
    reused := false }

/-- The context after a rollback, when the job was loaded again. -/
def StageContext.reload (ctx : StageContext) (j : AnalysisJob) : StageContext :=
  { ctx with
    repositoryId := j.repositoryId
    attempt := j.attempt
    maxAttempts := j.maxAttempts
    snapshotId := j.snapshotId
    opened := false }

/-- `_HeartbeatState`: what the heartbeat thread has to say to the stage. -/
inductive Signal where
  | clear
  | ownershipLost
  | cancelRequested
  | failure
  deriving DecidableEq, Repr

/-- The exception that ends a run: any, or `AnalysisResourceExceeded`. -/
inductive Failure where
  | error (message : String)
  | resourceExceeded (message : String)
  deriving DecidableEq, Repr

/-- What a worker does once its job is settled. -/
inductive Resume where
  | run
  | sweep (now : Nat) (rest : List Nat)
  deriving DecidableEq, Repr

/-- Where a worker stands, by the last step it took. -/
inductive Activity where
  | idle
  | polled (candidateId now : Nat)
  | claimed (jobId : Nat)
  | ready (ctx : StageContext) (stage : Option Stage)
  | inStage (ctx : StageContext) (stage : Stage) (signal : Signal) (finished : Bool)
  | leaving (ctx : StageContext) (stage : Stage)
  | sealMissed (ctx : StageContext)
  | completing (ctx : StageContext)
  | completeMissed (ctx : StageContext)
  | cancellationObserved (ctx : StageContext)
  | cancelling (ctx : StageContext) (inTry : Bool) (resume : Resume)
  | cancelMarked (ctx : StageContext) (inTry : Bool) (resume : Resume)
  | raised (ctx : StageContext) (failure : Failure)
  | failing (ctx : StageContext) (failure : Failure) (now : Nat)
  | failMissed (ctx : StageContext)
  | failMarked (ctx : StageContext) (failure : Failure) (now : Nat)
  | sweeping (now : Nat) (rest : List Nat)
  | stale (copy : AnalysisJob) (now : Nat) (rest : List Nat)
  | staleMarked (ctx : StageContext) (now : Nat) (rest : List Nat)
  deriving DecidableEq, Repr

def Resume.activity : Resume → Activity
  | .run => .idle
  | .sweep now rest => .sweeping now rest

def errorCode : String := "RI-JOB-FAILED"

def cancelledCode : String := "RI-JOB-CANCELLED"

def staleCode : String := "RI-JOB-STALE"

def staleMessage : String := "Analysis worker lease expired before the job completed."

def resourceExceededCode : String := "resource_exceeded"

/-- `_backoff`. -/
def backoff (attempt : Nat) : Nat :=
  min (2 ^ attempt) 60

/-- `_error_message`. -/
def errorMessage (message : String) : String :=
  String.ofList (message.toList.take 1024)

/-- The column values of a checkpoint. -/
def AnalysisJob.checkpoint (stage : Stage) (leaseExpiresAt : Nat) (j : AnalysisJob) : AnalysisJob :=
  { j with
    stage := some stage.name
    progress := stage.progress
    leaseExpiresAt := some leaseExpiresAt }

/-- The column a checkpoint flushes besides, when the stage opened a snapshot. -/
def AnalysisJob.point (snapshotId : Option Nat) (j : AnalysisJob) : AnalysisJob :=
  { j with snapshotId := snapshotId }

/-- The column values of `_complete`. -/
def AnalysisJob.complete (completedAt : Nat) (j : AnalysisJob) : AnalysisJob :=
  { j with
    status := .completed
    stage := some "completed"
    progress := 100
    cancelRequested := false
    workerId := none
    leaseExpiresAt := none
    errorCode := none
    errorMessage := none
    completedAt := some completedAt }

/-- The column values of `_complete_sealed_snapshot`, of the retry that finds a
    completed snapshot and of the sweep that does. -/
def AnalysisJob.completeSealed (completedAt : Nat) (j : AnalysisJob) : AnalysisJob :=
  { j.complete completedAt with nextAttemptAt := none }

/-- The column values of `_cancel`. -/
def AnalysisJob.cancel (now : Nat) (j : AnalysisJob) : AnalysisJob :=
  { j with
    status := .cancelled
    workerId := none
    leaseExpiresAt := none
    nextAttemptAt := none
    completedAt := some now }

/-- The column values of a terminal failure. -/
def AnalysisJob.fail (code message : String) (now : Nat) (j : AnalysisJob) : AnalysisJob :=
  { j with
    status := .failed
    workerId := none
    leaseExpiresAt := none
    nextAttemptAt := none
    errorCode := some code
    errorMessage := some message
    completedAt := some now }

/-- The column values of a retry. -/
def AnalysisJob.requeue (code message : String) (nextAttemptAt : Nat) (j : AnalysisJob) :
    AnalysisJob :=
  { j with
    status := .queued
    workerId := none
    leaseExpiresAt := none
    nextAttemptAt := some nextAttemptAt
    errorCode := some code
    errorMessage := some message }

/-- What a settled failure writes. `attempt` and `maxAttempts` are the values
    that the session has loaded. -/
def Failure.values (ctx : StageContext) (now : Nat) : Failure → AnalysisJob → AnalysisJob
  | .error message =>
    if ctx.maxAttempts ≤ ctx.attempt then AnalysisJob.fail errorCode (Jobs.errorMessage message) now
    else AnalysisJob.requeue errorCode (Jobs.errorMessage message) (now + backoff ctx.attempt)
  | .resourceExceeded message =>
    AnalysisJob.fail resourceExceededCode (Jobs.errorMessage message) now

/-- The code that a failure leaves on the snapshot it fails. -/
def Failure.code : Failure → String
  | .error _ => Jobs.errorCode
  | .resourceExceeded _ => resourceExceededCode

/-- What a settled stale job is written. -/
def staleValues (ctx : StageContext) (now : Nat) : AnalysisJob → AnalysisJob :=
  if ctx.attempt < ctx.maxAttempts then
    AnalysisJob.requeue staleCode staleMessage (now + backoff ctx.attempt)
  else AnalysisJob.fail staleCode staleMessage now

/-- `_fail_seal`: the column values of a rejected build. -/
def RiSnapshot.rejectSeal (t : RiSnapshot) : RiSnapshot :=
  { t with state := .failed, failureCode := t.failureCode.or (some "RI-INT-VALIDATION") }

/-- The row that `begin` inserts. -/
def newSnapshot (cfg : Settings) (p : Process) (db : Database) (repositoryId : Nat)
    (revisionValue : String) : RiSnapshot :=
  { snapshotId := db.nextUuid
    repositoryId := repositoryId
    revisionValue := revisionValue
    schemaVersion := cfg.schemaVersion
    producerSetHash := cfg.producerSet p
    configHash := cfg.configHash
    state := .building
    failureCode := none
    createdAt := db.now
    sealedAt := none }

/-- The revision of the repository a job belongs to: `_require_record` and
    `_require_revision`. -/
def Settings.revision (cfg : Settings) (repositoryId : Nat) : Option String :=
  (cfg.repositories repositoryId).bind (·.revisionValue)

/-- `_stage_open_snapshot`, up to the commit of its checkpoint. -/
def stageOpenSnapshot (cfg : Settings) (w : Nat) (db : Database) (ctx : StageContext)
    (signal : Signal) : Activity :=
  match cfg.revision ctx.repositoryId with
  | none => .raised ctx (.error "repository has no analyzable revision")
  | some revisionValue =>
    match findCompleted db (cfg.identity (.worker w) ctx.repositoryId revisionValue) with
    | some t => .inStage { ctx with snapshotId := some t.snapshotId, reused := true } .openSnapshot
        signal true
    | none => .inStage { ctx with opened := true } .openSnapshot signal true

/-- `_stage_seal`: lock the job, and in the same transaction seal the snapshot.
    Validation accepts the facts or rejects them with a message. -/
def stageSeal (w : Nat) (db : Database) (ctx : StageContext) (signal : Signal)
    (rejection : Option String) : Database × Activity :=
  if ctx.reused then (db, .inStage ctx .sealSnapshot signal true)
  else
    match updateOwned db ctx.jobId w true id, ctx.snapshotId with
    | none, _ => (db, .sealMissed ctx)
    | some _, none => (db, .raised ctx (.error "AssertionError"))
    | some db', some id =>
      match rejection with
      | some message => (db'.updateSnapshot id RiSnapshot.rejectSeal, .raised ctx (.error message))
      | none =>
        let sealed := completeSnapshot db' ctx.jobId id
        if identitiesHold sealed.snapshots then (sealed, .inStage ctx .sealSnapshot signal true)
        else (db, .raised ctx
          (.error "A completed snapshot already exists for this semantic identity."))

/-- The rows that the flush of a checkpoint writes besides the guarded update. -/
def flushOpened (cfg : Settings) (w : Nat) (db : Database) (ctx : StageContext)
    (revisionValue : String) : Database :=
  if ctx.opened then
    { db with
      jobs := Rows.updateWhere (fun j => j.id = ctx.jobId) (AnalysisJob.point (some db.nextUuid))
        db.jobs
      snapshots := db.snapshots ++
        [newSnapshot cfg (.worker w) db ctx.repositoryId revisionValue]
      nextUuid := db.nextUuid + 1 }
  else
    { db with
      jobs := Rows.updateWhere (fun j => j.id = ctx.jobId) (AnalysisJob.point ctx.snapshotId)
        db.jobs }

/-- `_checkpoint` after the stage that opened the snapshot: the guarded update,
    the flush and the commit. -/
def checkpointOpened (cfg : Settings) (w : Nat) (db : Database) (ctx : StageContext) :
    Database × Activity :=
  match updateOwned db ctx.jobId w false
      (AnalysisJob.checkpoint .openSnapshot (db.now + cfg.leaseSeconds)) with
  | none => (db, .idle)
  | some db' =>
    let flushed := flushOpened cfg w db' ctx ((cfg.revision ctx.repositoryId).getD "")
    if indexesHold flushed.jobs then
      (flushed, .ready { ctx with
        snapshotId := if ctx.opened then some db'.nextUuid else ctx.snapshotId
        opened := false } (some .extract))
    else (db, .raised ctx (.error "IntegrityError"))

/-- `_checkpoint` after a later stage. -/
def checkpoint (cfg : Settings) (w : Nat) (db : Database) (ctx : StageContext) (stage : Stage) :
    Database × Activity :=
  match updateOwned db ctx.jobId w false
      (AnalysisJob.checkpoint stage (db.now + cfg.leaseSeconds)) with
  | none => (db, .idle)
  | some db' => (db', .ready ctx stage.next)

/-- `_complete`, as far as its commit. -/
def complete (w : Nat) (db : Database) (ctx : StageContext) : Database × Activity :=
  match updateOwned db ctx.jobId w true (AnalysisJob.complete db.now) with
  | none => (db, .completeMissed ctx)
  | some db' => (db', .idle)

/-- An ownership-guarded update and its commit. A lost job is abandoned. -/
def settle (w : Nat) (db : Database) (ctx : StageContext) (values : AnalysisJob → AnalysisJob)
    (resume : Resume) : Database × Activity :=
  match updateOwned db ctx.jobId w false values with
  | none => (db, .idle)
  | some db' => (db', resume.activity)

/-- The snapshot that the session has for the job. -/
def StageContext.snapshot (db : Database) (ctx : StageContext) : Option RiSnapshot :=
  ctx.snapshotId.bind db.snapshot

/-- `_cancel`, up to its first commit. -/
def cancel (w : Nat) (db : Database) (ctx : StageContext) (inTry : Bool) (resume : Resume) :
    Database × Activity :=
  match updateOwned db ctx.jobId w false id with
  | none => (db, .idle)
  | some db' =>
    match ctx.snapshot db' with
    | none => settle w db' ctx (AnalysisJob.cancel db.now) resume
    | some t =>
      match t.state with
      | .completed =>
        settle w db' ctx (AnalysisJob.completeSealed (t.sealedAt.getD db.now)) resume
      | .building =>
        if ctx.reused then settle w db' ctx (AnalysisJob.cancel db.now) resume
        else (markFailed db' t.snapshotId cancelledCode, .cancelMarked ctx inTry resume)
      | .failed => settle w db' ctx (AnalysisJob.cancel db.now) resume

/-- `_retry_or_fail` and `_fail_resource_exceeded`, up to their first commit.
    `now` was read when the exception was caught. -/
def retryOrFail (w : Nat) (db : Database) (ctx : StageContext) (failure : Failure) (now : Nat) :
    Database × Activity :=
  match updateOwned db ctx.jobId w true id with
  | none => (db, .failMissed ctx)
  | some db' =>
    match ctx.snapshot db' with
    | none => settle w db' ctx (failure.values ctx now) .run
    | some t =>
      match t.state with
      | .completed => settle w db' ctx (AnalysisJob.completeSealed (t.sealedAt.getD now)) .run
      | .building =>
        if ctx.reused then settle w db' ctx (failure.values ctx now) .run
        else (markFailed db' t.snapshotId failure.code, .failMarked ctx failure now)
      | .failed => settle w db' ctx (failure.values ctx now) .run

/-- `_reconcile_stale`, up to its first commit. The cancellation flag is the
    one that was loaded before the reclaim. -/
def reconcileStale (cfg : Settings) (w : Nat) (db : Database) (copy : AnalysisJob) (now : Nat)
    (rest : List Nat) : Database × Activity :=
  match reclaim cfg db w copy with
  | none => (db, .sweeping now rest)
  | some db' =>
    let ctx := copy.context
    if copy.cancelRequested then cancel w db' ctx false (.sweep now rest)
    else
      match ctx.snapshot db' with
      | none => settle w db' ctx (staleValues ctx now) (.sweep now rest)
      | some t =>
        match t.state with
        | .completed =>
          settle w db' ctx (AnalysisJob.completeSealed (t.sealedAt.getD now)) (.sweep now rest)
        | .building => (markFailed db' t.snapshotId staleCode, .staleMarked ctx now rest)
        | .failed => settle w db' ctx (staleValues ctx now) (.sweep now rest)

/-- The job as another read finds it, if this worker still owns it and its
    cancellation has been requested. -/
def ownedAndCancelled (w : Nat) (db : Database) (jobId : Nat) : Option AnalysisJob :=
  (db.job jobId).filter (fun j => j.ownedBy w && j.cancelRequested)

/-- The next step in program order. `rejection` is what the validation of a
    seal has to say. -/
def next (cfg : Settings) (w : Nat) (db : Database) (rejection : Option String) :
    Activity → Database × Activity
  | .idle => match nextEligibleJobId db with
    | some candidateId => (db, .polled candidateId db.now)
    | none => (db, .idle)
  | .polled candidateId now => match claim cfg db w candidateId now with
    | some db' => (db', .claimed candidateId)
    | none => (db, .idle)
  | .claimed jobId => match db.job jobId with
    | some j => (db, .ready j.context (some .openSnapshot))
    | none => (db, .idle)
  | .ready ctx stage =>
    if cancelRequested db ctx.jobId then (db, .cancelling ctx true .run)
    else match stage with
      | some stage => (db, .inStage ctx stage .clear false)
      | none => (db, .completing ctx)
  | .inStage ctx stage _ true => (db, .leaving ctx stage)
  | .inStage ctx .openSnapshot signal false => (db, stageOpenSnapshot cfg w db ctx signal)
  | .inStage ctx .extract signal false => (db, .inStage ctx .extract signal true)
  | .inStage ctx .sealSnapshot signal false => stageSeal w db ctx signal rejection
  | .leaving ctx .openSnapshot => checkpointOpened cfg w db ctx
  | .leaving ctx stage => checkpoint cfg w db ctx stage
  | .sealMissed ctx => match ownedAndCancelled w db ctx.jobId with
    | some _ => (db, .cancellationObserved ctx)
    | none => (db, .idle)
  | .completing ctx => complete w db ctx
  | .completeMissed ctx => match ownedAndCancelled w db ctx.jobId with
    | some j => (db, .cancelling (ctx.reload j) true .run)
    | none => (db, .idle)
  | .cancellationObserved ctx => match db.job ctx.jobId with
    | some j => (db, .cancelling (ctx.reload j) false .run)
    | none => (db, .idle)
  | .cancelling ctx inTry resume => cancel w db ctx inTry resume
  | .cancelMarked ctx _ resume => settle w db ctx (AnalysisJob.cancel db.now) resume
  | .raised ctx failure => match db.job ctx.jobId with
    | some j => (db, .failing (ctx.reload j) failure db.now)
    | none => (db, .idle)
  | .failing ctx failure now => retryOrFail w db ctx failure now
  | .failMissed ctx => match ownedAndCancelled w db ctx.jobId with
    | some j => (db, .cancelling (ctx.reload j) false .run)
    | none => (db, .idle)
  | .failMarked ctx failure now => settle w db ctx (failure.values ctx now) .run
  | .sweeping _ [] => (db, .idle)
  | .sweeping now (jobId :: rest) =>
    match (db.job jobId).filter (fun j => j.status = .running ∧
        ∃ t ∈ j.leaseExpiresAt, leaseExpired t now = true) with
    | some copy => (db, .stale copy now rest)
    | none => (db, .sweeping now rest)
  | .stale copy now rest => reconcileStale cfg w db copy now rest
  | .staleMarked ctx now rest => settle w db ctx (staleValues ctx now) (.sweep now rest)

/-- The stands inside the `try` of `_execute_stages`. -/
def Activity.inTry : Activity → Option StageContext
  | .ready ctx _ | .inStage ctx _ _ _ | .leaving ctx _ | .sealMissed ctx | .completing ctx
  | .completeMissed ctx | .cancelling ctx true _ | .cancelMarked ctx true _ => some ctx
  | _ => none

/-- The resource budget is checked in the stages, once a snapshot is opened. -/
def Activity.budgeted : Activity → Bool
  | .inStage ctx .openSnapshot _ _ => ctx.opened
  | .inStage ctx _ _ _ => !ctx.reused
  | _ => false

/-- What `_check_heartbeat` raises on a signal. -/
def checkHeartbeat (ctx : StageContext) : Signal → Option Activity
  | .clear => none
  | .ownershipLost => some .idle
  | .cancelRequested => some (.cancellationObserved ctx)
  | .failure => some (.raised ctx (.error "heartbeat"))

/-- Every step a worker can take. -/
inductive WorkerAction where
  | next (rejection : Option String)
  | sweep
  | heartbeat (jobId : Nat)
  | heartbeatFails
  | checkHeartbeat
  | readFlag
  | raise (failure : Failure)
  | crash
  deriving DecidableEq, Repr

/-- A heartbeat's renewal, and the signal it leaves for the stage it belongs to.
    A thread that outlives its stage renews all the same. -/
def heartbeat (cfg : Settings) (w : Nat) (db : Database) (jobId : Nat) (q : Activity) :
    Database × Activity :=
  let signalled (signal : Signal) : Activity := match q with
    | .inStage ctx stage _ finished =>
      if ctx.jobId = jobId then .inStage ctx stage signal finished else q
    | _ => q
  match renew cfg db w jobId with
  | none => (db, signalled .ownershipLost)
  | some (db', true) => (db', signalled .cancelRequested)
  | some (db', false) => (db', q)

/-- The same stand but for the signal of a stage. -/
def SameStage (q q' : Activity) : Prop :=
  q' = q ∨ ∃ ctx stage signal signal' finished, q = .inStage ctx stage signal finished ∧
    q' = .inStage ctx stage signal' finished

/-- A heartbeat renews the lease, and leaves no more than a signal. -/
theorem heartbeat_cases (cfg : Settings) (w : Nat) (db : Database) (jobId : Nat) (q : Activity) :
    ∃ q', SameStage q q' ∧
      ((renew cfg db w jobId = none ∧ heartbeat cfg w db jobId q = (db, q')) ∨
        ∃ db' flag, renew cfg db w jobId = some (db', flag) ∧
          heartbeat cfg w db jobId q = (db', q')) := by
  have hsame : SameStage q q := .inl rfl
  unfold heartbeat
  cases renew cfg db w jobId with
  | none =>
    refine ⟨_, ?_, .inl ⟨rfl, rfl⟩⟩
    cases q with
    | inStage ctx stage signal finished =>
      by_cases hjob : ctx.jobId = jobId
      · simp only [hjob, if_true]
        exact .inr ⟨ctx, stage, signal, .ownershipLost, finished, rfl, rfl⟩
      · simp only [hjob, if_false]
        exact hsame
    | _ => exact hsame
  | some found =>
    rcases found with ⟨db', flag⟩
    cases flag with
    | false => exact ⟨q, hsame, .inr ⟨db', false, rfl, rfl⟩⟩
    | true =>
      refine ⟨_, ?_, .inr ⟨db', true, rfl, rfl⟩⟩
      cases q with
      | inStage ctx stage signal finished =>
        by_cases hjob : ctx.jobId = jobId
        · simp only [hjob, if_true]
          exact .inr ⟨ctx, stage, signal, .cancelRequested, finished, rfl, rfl⟩
        · simp only [hjob, if_false]
          exact hsame
      | _ => exact hsame

def workerStep (cfg : Settings) (w : Nat) (db : Database) (q : Activity) :
    WorkerAction → Option (Database × Activity)
  | .next rejection => some (next cfg w db rejection q)
  | .sweep => match q with
    | .idle => some (db, .sweeping db.now (expiredJobIds db db.now))
    | _ => none
  | .heartbeat jobId => some (heartbeat cfg w db jobId q)
  | .heartbeatFails => match q with
    | .inStage ctx stage _ finished => some (db, .inStage ctx stage .failure finished)
    | _ => none
  | .checkHeartbeat => match q with
    | .inStage ctx _ signal _ => (checkHeartbeat ctx signal).map (fun q' => (db, q'))
    | _ => none
  | .readFlag => match q with
    | .inStage ctx .extract _ false =>
      if cancelRequested db ctx.jobId then some (db, .cancellationObserved ctx) else none
    | _ => none
  | .raise failure => match q.inTry, failure with
    | some ctx, .error _ => some (db, .raised ctx failure)
    | some ctx, .resourceExceeded _ => if q.budgeted then some (db, .raised ctx failure) else none
    | none, _ => none
  | .crash => some (db, .idle)

end Jobs

end Partha
