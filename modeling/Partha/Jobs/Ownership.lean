import Partha.Jobs.Reachable

/-!
# Ownership of a Job

A job row names a worker and a lease exactly while it is running, waits for a
backoff only while it is queued, and is dated exactly when it is terminal. It is
claimed as often as its attempts say, and never more often than it may be.

A worker is replaced by another in one way only, by a sweep, and the guard of
the sweep has looked at the lease in the same statement. The interleaving at
the end takes a job over from a worker that opened a snapshot and was not heard
of again. The commit of `mark_failed` shows the new owner to everybody.

## Main definitions

* `AnalysisJob.Accounted`: The ownership invariant of a row.
* `NotTaken`: No worker is replaced under an unexpired lease.
* `oneRepository`: Settings to run concrete interleavings with.

## Theorems

* `ownership_holds`: The invariant, in every reachable state.
-/

namespace Partha

namespace Jobs

section Ownership

/-- The ownership invariant of a row. `claims` are the jobs claimed so far. -/
structure AnalysisJob.Accounted (claims : List Nat) (j : AnalysisJob) : Prop where
  worker : j.status = .running ↔ j.workerId.isSome
  lease : j.workerId.isSome ↔ j.leaseExpiresAt.isSome
  backoff : j.nextAttemptAt.isSome → j.status = .queued
  completedAt : j.completedAt.isSome ↔ j.status.terminal
  attempts : j.attempt ≤ j.maxAttempts
  claimed : claims.count j.id = j.attempt
  runningAttempt : j.status = .running → 1 ≤ j.attempt

/-- A row that passes from one worker to another had a lease that lapsed. -/
def NotTaken (db db' : Database) : Prop :=
  ∀ j ∈ db.jobs, ∀ j' ∈ db'.jobs, j'.id = j.id → ∀ u v, j.workerId = some u →
    j'.workerId = some v → u ≠ v → ∃ t, j.leaseExpiresAt = some t ∧ t < db.now

variable {cfg : Settings} {s s' : State}

theorem Consistent.accounted (h : Consistent cfg s) {j : AnalysisJob} (hj : j ∈ s.db.jobs) :
    j.Accounted s.db.claims := by
  have hw := h.tables.wellFormed j hj
  exact ⟨hw.worker, hw.lease, hw.backoff, hw.completedAt, hw.attempts, h.tables.claims j hj,
    hw.runningAttempt⟩

theorem Consistent.notTaken (h : Consistent cfg s) {a : Action} (hstep : step cfg s a = some s') :
    NotTaken s.db s'.db := by
  intro j hj j' hj' hid u v hu hv hne
  exact (consistent_step h hstep).2.taken j' hj' v hv u hne j hj hid.symm hu

/-- In every interleaving of requests, workers, sweeps and crashes. -/
theorem ownership_holds (h : (analysis cfg).Reachable s) :
    (∀ j ∈ s.db.jobs, j.Accounted s.db.claims) ∧
      ∀ a s', step cfg s a = some s' → NotTaken s.db s'.db := by
  have hs := consistent_reachable h
  exact ⟨fun _ hj => hs.accounted hj, fun _ _ hstep => hs.notTaken hstep⟩

/-- One repository with a revision. Worker `0` runs an older build. -/
def oneRepository : Settings :=
  { leaseSeconds := 1
    schemaVersion := "1"
    configHash := "config"
    producerSet := fun p => if p = .worker 0 then "old" else "new"
    repositories := fun id => if id = 1 then some ⟨7, some "head"⟩ else none }

/-- A submission up to its return. -/
def submission (r : Nat) : List Action :=
  .request r (.submit 1 7) :: List.replicate 5 (.request r (.next true))

/-- Worker `0` opens a snapshot and worker `1` finds its lease lapsed. -/
def takeover : List Action :=
  submission 0 ++ List.replicate 7 (.worker 0 (.next none)) ++
    [.tick, .tick, .worker 1 .sweep, .worker 1 (.next none), .worker 1 (.next none)]

theorem ownership_holds_takeover : ∃ s, (analysis oneRepository).exec initial takeover = some s ∧
    s.db.jobs.map (·.workerId) = [some 1] ∧ ∀ j ∈ s.db.jobs, j.Accounted s.db.claims := by
  have hrun : ((analysis oneRepository).exec initial takeover).map
      (fun s => s.db.jobs.map (·.workerId)) = some [some 1] := by decide +kernel
  rcases Option.map_eq_some_iff.mp hrun with ⟨s, hs, hworker⟩
  exact ⟨s, hs, hworker, (ownership_holds (StepSystem.reachable_of_exec rfl hs)).1⟩

end Ownership

end Jobs

end Partha
