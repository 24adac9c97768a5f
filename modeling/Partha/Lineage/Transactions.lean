import Mathlib.Data.List.MinMax
import Partha.Library.Rows
import Partha.Library.Steps

/-!
# Lineage Transactions

`add_with_lineage` and `delete_with_lineage_update` of `RepositoryRepository`,
as transactions that interleave.

A call is a transaction: what it has read and what it has written but not yet
committed belong to the call, and `State` holds only committed rows. The write
lock on a lineage row is the serialisation point. An import takes it with the
`UPDATE` that allocates the sequence, and keeps it to its commit. An import
that found no lineage inserts one instead, and the unique index on the
canonical triple makes a concurrent insertion of the same triple wait and then
fail, which sends the loser back to look the lineage up again, at most
`maxLineageRetries` times.

A deletion first reads the lineage row with `SELECT ... FOR UPDATE`. On
PostgreSQL that read takes the row lock. SQLite has no row locks and ignores
the clause, so there a deletion takes nothing before its first write, which is
the flush at its commit. The dialect is a parameter of the model for this one
difference.

The commit checks what the database checks: the primary key and the pair
`(lineage_id, sequence)` of a new repository, the foreign key that ties a
member to a lineage of its own owner, and the foreign key that ties a lineage's
latest pointer to one of its members. A violation rolls the transaction back.

`history` is not a column. It records every allocation that was ever committed,
so that facts about sequences can be stated for all time and not only for the
rows that still exist.

## Main definitions

* `RepositoryLineage`, `RepositoryRecord`: The columns lineage code touches.
* `ImportRequest`: The arguments of `add_with_lineage`.
* `Call`: What a transaction has read and where it stands.
* `State`: The committed rows, the locks and the calls.
* `beginAdd`, `findLineage`, `createLineage`, `allocateSequence`, `checkDuplicate`,
  `commitAdd`: The steps of an import.
* `lockLineage`, `planLatest`, `commitDelete`: The steps of a deletion.
* `transactions`: The system of all interleavings.
-/

namespace Partha

namespace Lineage

/-- `_MAX_LINEAGE_RETRIES`. -/
def maxLineageRetries : Nat := 5

structure RepositoryLineage where
  id : Nat
  ownerId : Nat
  canonicalSourceKey : String
  canonicalBranch : String
  displayName : String
  latestRepositoryId : Option Nat
  nextSequence : Nat
  deriving DecidableEq, Repr

structure RepositoryRecord where
  id : Nat
  ownerId : Nat
  revisionValue : Option String
  lineageId : Option Nat
  sequence : Option Nat
  deriving DecidableEq, Repr

/-- A committed allocation: this repository got this sequence in this lineage. -/
structure Allocation where
  lineageId : Nat
  sequence : Nat
  repositoryId : Nat
  deriving DecidableEq, Repr

/-- The arguments of `add_with_lineage`: the record to insert, and the owner and
    canonical pair of the lineage it goes to. The record's identifier is drawn
    when the call begins. -/
structure ImportRequest where
  repositoryId : Nat
  recordOwnerId : Nat
  revisionValue : Option String
  ownerId : Nat
  canonicalSourceKey : Option String
  canonicalBranch : Option String
  displayName : String
  deriving DecidableEq, Repr

/-- A transaction, by the last statement it executed. `isNew` says that the
    lineage was inserted by this transaction and is not committed. -/
inductive Call where
  | idle
  | adding (request : ImportRequest) (attempt : Nat)
  | found (request : ImportRequest) (attempt : Nat) (lineageId : Nat)
  | missing (request : ImportRequest) (attempt : Nat)
  | created (request : ImportRequest) (attempt : Nat) (lineage : RepositoryLineage)
  | allocated (request : ImportRequest) (attempt : Nat) (lineage : RepositoryLineage) (isNew : Bool)
  | checked (request : ImportRequest) (attempt : Nat) (lineage : RepositoryLineage) (isNew : Bool)
  | deleting (record : RepositoryRecord)
  | locked (record : RepositoryRecord) (lineage : RepositoryLineage)
  | planned (record : RepositoryRecord) (lineageId : Nat) (latest : Option (Option Nat))
  | added (record : RepositoryRecord)
  | deleted (record : RepositoryRecord)
  | duplicate (existing : RepositoryRecord)
  | failed
  deriving DecidableEq, Repr

/-- The two dialects differ in what `FOR UPDATE` does. -/
inductive Dialect where
  | postgresql
  | sqlite
  deriving DecidableEq, Repr

/-- The columns of `uq_repository_lineages_owner_source_branch`. -/
structure CanonicalKey where
  ownerId : Nat
  canonicalSourceKey : String
  canonicalBranch : String
  deriving DecidableEq, Repr

def RepositoryLineage.key (l : RepositoryLineage) : CanonicalKey :=
  { ownerId := l.ownerId
    canonicalSourceKey := l.canonicalSourceKey
    canonicalBranch := l.canonicalBranch }

/-- A committed import advances the counter and points at the new repository. -/
def RepositoryLineage.advance (repositoryId : Nat) (l : RepositoryLineage) : RepositoryLineage :=
  { l with nextSequence := l.nextSequence + 1, latestRepositoryId := some repositoryId }

/-- A deletion writes the pointer and nothing else. -/
def RepositoryLineage.repoint (latest : Option Nat) (l : RepositoryLineage) : RepositoryLineage :=
  { l with latestRepositoryId := latest }

/-- The committed rows, the locks and the calls. `keyLock` is the wait on a
    unique-index entry that another transaction inserted and has not committed. -/
structure State where
  lineages : List RepositoryLineage
  repositories : List RepositoryRecord
  history : List Allocation
  nextUuid : Nat
  lock : Nat → Option Nat
  keyLock : CanonicalKey → Option Nat
  call : Nat → Call

namespace State

def setCall (s : State) (c : Nat) (q : Call) : State :=
  { s with call := fun c' => if c' = c then q else s.call c' }

/-- Take the write lock on lineage row `id`. -/
def acquire (s : State) (id c : Nat) : State :=
  { s with lock := fun id' => if id' = id then some c else s.lock id' }

/-- Enter `k` into the unique index without committing it. -/
def acquireKey (s : State) (k : CanonicalKey) (c : Nat) : State :=
  { s with keyLock := fun k' => if k' = k then some c else s.keyLock k' }

/-- Give up every lock of call `c`, at its commit or rollback. -/
def release (s : State) (c : Nat) : State :=
  { s with
    lock := fun id => if s.lock id = some c then none else s.lock id
    keyLock := fun k => if s.keyLock k = some c then none else s.keyLock k }

/-- No call but `c` holds the lock on lineage row `id`. -/
def Unlocked (s : State) (id c : Nat) : Prop :=
  s.lock id = none ∨ s.lock id = some c

instance (s : State) (id c : Nat) : Decidable (s.Unlocked id c) :=
  inferInstanceAs (Decidable (_ ∨ _))

end State

/-- What a transaction does next. -/
inductive Action where
  | beginAdd (c : Nat) (request : ImportRequest)
  | findLineage (c : Nat)
  | createLineage (c : Nat)
  | allocateSequence (c : Nat)
  | checkDuplicate (c : Nat)
  | commitAdd (c : Nat)
  | beginDelete (c repositoryId ownerId : Nat)
  | lockLineage (c : Nat)
  | planLatest (c : Nat)
  | commitDelete (c : Nat)
  | crash (c : Nat)
  deriving DecidableEq, Repr

/-- The transaction that takes the step. -/
def Action.caller : Action → Nat
  | .beginAdd c _ | .findLineage c | .createLineage c | .allocateSequence c | .checkDuplicate c
  | .commitAdd c | .beginDelete c _ _ | .lockLineage c | .planLatest c | .commitDelete c
  | .crash c => c

/-- `record` as an import inserts it into a lineage, or standalone. -/
def ImportRequest.record (request : ImportRequest) (lineageId sequence : Option Nat) :
    RepositoryRecord :=
  { id := request.repositoryId
    ownerId := request.recordOwnerId
    revisionValue := request.revisionValue
    lineageId := lineageId
    sequence := sequence }

/-- Roll back after an `IntegrityError` and try again, or give up. -/
def retryAdd (s : State) (c : Nat) (request : ImportRequest) (attempt : Nat) : State :=
  if attempt + 1 < maxLineageRetries then (s.release c).setCall c (.adding request (attempt + 1))
  else (s.release c).setCall c .failed

/-- `add`: a standalone import, with no lineage and no sequence. -/
def commitStandalone (s : State) (c : Nat) (request : ImportRequest) : State :=
  let record := request.record none none
  if s.repositories.any (fun r => r.id = record.id) then s.setCall c .failed
  else { s with repositories := s.repositories ++ [record] }.setCall c (.added record)

/-- `add_with_lineage` starts from a record that carries a new identifier. A
    missing source key makes it a standalone import. -/
def beginAdd (s : State) (c : Nat) (request : ImportRequest) : State :=
  let request := { request with repositoryId := s.nextUuid }
  let s := { s with nextUuid := s.nextUuid + 1 }
  if request.canonicalSourceKey = none then commitStandalone s c request
  else s.setCall c (.adding request 0)

/-- `_find_lineage`. The unique index leaves it at most one row to find. -/
def findLineage (s : State) (c : Nat) (request : ImportRequest) (attempt : Nat) : State :=
  match s.lineages.find? (fun l => l.ownerId = request.ownerId ∧
      some l.canonicalSourceKey = request.canonicalSourceKey ∧
      some l.canonicalBranch = request.canonicalBranch) with
  | some lineage => s.setCall c (.found request attempt lineage.id)
  | none => s.setCall c (.missing request attempt)

/-- The flush that inserts a lineage. Half a canonical pair fails the check
    constraint; a triple that is taken fails the unique index. -/
def createLineage (s : State) (c : Nat) (request : ImportRequest) (attempt : Nat) : Option State :=
  match request.canonicalSourceKey, request.canonicalBranch with
  | some source, some branch =>
    let lineage : RepositoryLineage :=
      { id := s.nextUuid
        ownerId := request.ownerId
        canonicalSourceKey := source
        canonicalBranch := branch
        displayName := request.displayName
        latestRepositoryId := none
        nextSequence := 1 }
    if s.keyLock lineage.key = none then
      if s.lineages.any (fun l => l.key = lineage.key) then some (retryAdd s c request attempt)
      else some ({ s.acquireKey lineage.key c with nextUuid := s.nextUuid + 1 }.setCall c
        (.created request attempt lineage))
    else none
  | _, _ => some (retryAdd s c request attempt)

/-- The `UPDATE` that advances `next_sequence` in an existing lineage. It waits
    for the row lock and keeps it. -/
def allocateExisting (s : State) (c : Nat) (request : ImportRequest) (attempt lineageId : Nat) :
    Option State :=
  if s.Unlocked lineageId c then
    match s.lineages.find? (fun l => l.id = lineageId ∧ l.ownerId = request.ownerId) with
    | some lineage => some ((s.acquire lineageId c).setCall c
        (.allocated request attempt
          { lineage with nextSequence := lineage.nextSequence + 1 } false))
    | none => some ((s.release c).setCall c .failed)
  else none

/-- The same `UPDATE` on the lineage this transaction has just inserted. -/
def allocateNew (s : State) (c : Nat) (request : ImportRequest) (attempt : Nat)
    (lineage : RepositoryLineage) : State :=
  s.setCall c
    (.allocated request attempt { lineage with nextSequence := lineage.nextSequence + 1 } true)

/-- The duplicate check, made while holding the lineage. -/
def checkDuplicate (s : State) (c : Nat) (request : ImportRequest) (attempt : Nat)
    (lineage : RepositoryLineage) (isNew : Bool) : State :=
  match s.repositories.find? (fun r => r.lineageId = some lineage.id ∧
      r.revisionValue = request.revisionValue) with
  | some existing => (s.release c).setCall c (.duplicate existing)
  | none => s.setCall c (.checked request attempt lineage isNew)

/-- The lineage rows a committed import leaves: the counter advanced and the
    pointer at the new repository, in the row it inserted or in the old one. -/
def pointedLineages (s : State) (lineage : RepositoryLineage) (isNew : Bool) (repositoryId : Nat) :
    List RepositoryLineage :=
  if isNew then s.lineages ++ [{ lineage with latestRepositoryId := some repositoryId }]
  else Rows.updateWhere (fun l => l.id = lineage.id) (RepositoryLineage.advance repositoryId)
    s.lineages

/-- The insert, the pointer update and the commit. -/
def commitAdd (s : State) (c : Nat) (request : ImportRequest) (attempt : Nat)
    (lineage : RepositoryLineage) (isNew : Bool) : State :=
  let sequence := lineage.nextSequence - 1
  let record := request.record (some lineage.id) (some sequence)
  if s.repositories.any (fun r => r.id = record.id) ∨
      s.repositories.any (fun r => r.lineageId = record.lineageId ∧ r.sequence = record.sequence) ∨
      record.ownerId ≠ lineage.ownerId then
    retryAdd s c request attempt
  else
    (({ s with
      lineages := pointedLineages s lineage isNew record.id
      repositories := s.repositories ++ [record]
      history := s.history ++ [⟨lineage.id, sequence, record.id⟩] } : State).release c).setCall c
        (.added record)

/-- The read a deletion starts from: `get_for_owner`. -/
def beginDelete (s : State) (c repositoryId ownerId : Nat) : State :=
  match s.repositories.find? (fun r => r.id = repositoryId) with
  | some record =>
    if record.ownerId = ownerId then s.setCall c (.deleting record) else s.setCall c .failed
  | none => s.setCall c .failed

/-- `SELECT ... FOR UPDATE` on the lineage row. Only PostgreSQL locks it. -/
def lockLineage (dialect : Dialect) (s : State) (c : Nat) (record : RepositoryRecord)
    (lineageId : Nat) : Option State :=
  match dialect with
  | .postgresql =>
    if s.Unlocked lineageId c then
      match s.lineages.find? (fun l => l.id = lineageId) with
      | some lineage => some ((s.acquire lineageId c).setCall c (.locked record lineage))
      | none => some ((s.release c).setCall c .failed)
    else none
  | .sqlite =>
    match s.lineages.find? (fun l => l.id = lineageId) with
    | some lineage => some (s.setCall c (.locked record lineage))
    | none => some ((s.release c).setCall c .failed)

/-- The member with the highest sequence, other than `repositoryId`. -/
def nextLatest (repositories : List RepositoryRecord) (lineageId repositoryId : Nat) : Option Nat :=
  ((repositories.filter (fun r => r.lineageId = some lineageId ∧ r.id ≠ repositoryId)).argmax
    (fun r => r.sequence.getD 0)).map (·.id)

/-- The pointer a deletion writes: nothing unless the deleted repository is the
    latest, and then the next one down. -/
def plan (repositories : List RepositoryRecord) (lineage : RepositoryLineage)
    (record : RepositoryRecord) : Option (Option Nat) :=
  if lineage.latestRepositoryId = some record.id then
    some (nextLatest repositories lineage.id record.id)
  else none

/-- `fk_repository_lineages_latest_member`, checked at the commit. -/
def latestIsMember (lineages : List RepositoryLineage) (repositories : List RepositoryRecord) :
    Bool :=
  lineages.all (fun l => match l.latestRepositoryId with
    | none => true
    | some m => repositories.any (fun r => r.id = m ∧ r.lineageId = some l.id))

/-- The lineage rows after a planned pointer is written. -/
def repointedLineages (lineages : List RepositoryLineage) (lineageId : Nat) :
    Option (Option Nat) → List RepositoryLineage
  | none => lineages
  | some latest => Rows.updateWhere (fun l => l.id = lineageId) (RepositoryLineage.repoint latest)
      lineages

/-- The flush and commit of a deletion. A pointer write waits for the row lock;
    without one the lineage row is not written at all. -/
def commitDelete (s : State) (c : Nat) (record : RepositoryRecord) (lineageId : Nat)
    (latest : Option (Option Nat)) : Option State :=
  if latest = none ∨ s.Unlocked lineageId c then
    let lineages := repointedLineages s.lineages lineageId latest
    let repositories := s.repositories.filter (fun r => r.id ≠ record.id)
    if latestIsMember lineages repositories then
      some (({ s with lineages := lineages, repositories := repositories } : State).release c
        |>.setCall c (.deleted record))
    else some ((s.release c).setCall c .failed)
  else none

/-- The deletion of a repository that is in no lineage. -/
def commitDeleteStandalone (s : State) (c : Nat) (record : RepositoryRecord) : State :=
  let repositories := s.repositories.filter (fun r => r.id ≠ record.id)
  if latestIsMember s.lineages repositories then
    { s with repositories := repositories }.setCall c (.deleted record)
  else s.setCall c .failed

/-- One statement of one transaction. A step that does not fit where the call
    stands, or that has to wait, is refused. -/
def step (dialect : Dialect) (s : State) : Action → Option State
  | .beginAdd c request => match s.call c with
    | .idle => some (beginAdd s c request)
    | _ => none
  | .findLineage c => match s.call c with
    | .adding request attempt => some (findLineage s c request attempt)
    | _ => none
  | .createLineage c => match s.call c with
    | .missing request attempt => createLineage s c request attempt
    | _ => none
  | .allocateSequence c => match s.call c with
    | .found request attempt lineageId => allocateExisting s c request attempt lineageId
    | .created request attempt lineage => some (allocateNew s c request attempt lineage)
    | _ => none
  | .checkDuplicate c => match s.call c with
    | .allocated request attempt lineage isNew =>
      some (checkDuplicate s c request attempt lineage isNew)
    | _ => none
  | .commitAdd c => match s.call c with
    | .checked request attempt lineage isNew => some (commitAdd s c request attempt lineage isNew)
    | _ => none
  | .beginDelete c repositoryId ownerId => match s.call c with
    | .idle => some (beginDelete s c repositoryId ownerId)
    | _ => none
  | .lockLineage c => match s.call c with
    | .deleting record => match record.lineageId with
      | some lineageId => lockLineage dialect s c record lineageId
      | none => none
    | _ => none
  | .planLatest c => match s.call c with
    | .locked record lineage =>
      some (s.setCall c (.planned record lineage.id (plan s.repositories lineage record)))
    | _ => none
  | .commitDelete c => match s.call c with
    | .planned record lineageId latest => commitDelete s c record lineageId latest
    | .deleting record => match record.lineageId with
      | none => some (commitDeleteStandalone s c record)
      | some _ => none
    | _ => none
  | .crash c => match s.call c with
    | .added _ | .deleted _ | .duplicate _ | .failed => none
    | _ => some ((s.release c).setCall c .failed)

/-- An empty database and no call started. -/
def initial : State :=
  { lineages := []
    repositories := []
    history := []
    nextUuid := 0
    lock := fun _ => none
    keyLock := fun _ => none
    call := fun _ => .idle }

/-- All interleavings of any number of imports and deletions. -/
def transactions (dialect : Dialect) : StepSystem State Action :=
  { init := fun s => s = initial
    step := step dialect }

end Lineage

end Partha
