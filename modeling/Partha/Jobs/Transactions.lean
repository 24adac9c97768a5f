import Partha.Jobs.Invariant

/-!
# The Transactions Keep the Invariant

One lemma for each transaction of the workers: inside it the invariant holds,
and the stand it leaves its worker is right.

The updates of the rows fall into few kinds. A row that stays with its owner
gets a fresh lease, which nobody remembers as lapsed. A row that is settled
loses its owner, and `Settles` is what its new status has to agree with: it is
completed exactly when its snapshot is. The branches of the exits are chosen by
the state of the snapshot, so each writes the status that `Settles` allows.

## Main definitions

* `Settles`: What may be written to a row that its owner gives up.
* `TransactionOk`: The invariant and the stand after a transaction.

## Theorems

* `settle_ok`, `cancel_ok`, `retryOrFail_ok`, `reconcileStale_ok`: The exits.
* `claim_ok`, `heartbeat_ok`, `checkpoint_ok`, `checkpointOpened_ok`,
  `stageSeal_ok`, `complete_ok`: The transactions of a run.
* `next_ok`, `workerStep_ok`: Every step in program order, and every step.
-/

namespace Partha

namespace Jobs

open List

section Values

variable {cfg : Settings} {s : State} {w : Nat} {db : Database}

variable {p : Process} {j j' : AnalysisJob} {n : Nat} {ctx : StageContext}

/-- A lease from now on is not one that another worker remembers as lapsed. -/
theorem not_remembered (h : Inv cfg s p db) (hl : j.leaseExpiresAt = some (db.now + n)) :
    ¬ Remembered s p j := by
  rintro ⟨u, hu, copy, now, rest, hq, _, _, hlease⟩
  have hok := h.workers u hu
  rw [hq] at hok
  rcases hok.1.lapsed with ⟨t, ht, hlt⟩
  rw [← hlease, hl, Option.some.injEq] at ht
  omega

/-- The columns by which a row that stays with a worker keeps its invariant. -/
structure SameJob (j j' : AnalysisJob) : Prop where
  id : j'.id = j.id
  scope : j'.repositoryId = j.repositoryId ∧ j'.ownerId = j.ownerId ∧
    j'.revisionValue = j.revisionValue ∧ j'.configHash = j.configHash
  attempts : j'.attempt = j.attempt ∧ j'.maxAttempts = j.maxAttempts
  running : j.status = .running ∧ j'.status = .running
  backoff : j'.nextAttemptAt = j.nextAttemptAt
  completedAt : j'.completedAt = j.completedAt
  flag : j'.cancelRequested = j.cancelRequested

theorem SameJob.wellFormed (h : SameJob j j') (hj : j.WellFormed) (hw : j'.workerId.isSome = true)
    (hl : j'.leaseExpiresAt.isSome = true) : j'.WellFormed where
  worker := ⟨fun _ => hw, fun _ => h.running.2⟩
  lease := ⟨fun _ => hl, fun _ => hw⟩
  backoff := by
    rw [h.backoff, h.running.2, ← h.running.1]
    exact hj.backoff
  completedAt := by
    rw [h.completedAt, h.running.2, ← h.running.1]
    exact hj.completedAt
  attempts := by
    rw [h.attempts.1, h.attempts.2]
    exact hj.attempts
  runningAttempt := fun _ => h.attempts.1 ▸ hj.runningAttempt h.running.1
  queuedAttempt := fun e => by
    rw [h.running.2] at e
    cases e

/-- A running row that goes to worker `w`, or stays with it, with a fresh lease. -/
theorem rowOk_leased (h : Inv cfg s (.worker w) db) (hj : j ∈ db.jobs) (hsame : SameJob j j')
    (hsnap : j'.snapshotId = j.snapshotId) (hw : j'.workerId = some w)
    (hl : j'.leaseExpiresAt = some (db.now + n))
    (htaken : j.workerId = some w ∨ ∀ u, u ≠ w → Lapsed s.db j.id u) :
    RowOk s (.worker w) db j j' where
  id := hsame.id
  scope := hsame.scope
  wellFormed := hsame.wellFormed (h.tables.wellFormed j hj) (by rw [hw]; rfl) (by rw [hl]; rfl)
  foreign := by
    intro u hu ho
    rw [ownedBy_iff, hw, Option.some.injEq] at ho
    exact absurd (congrArg Process.worker ho.2) hu
  lease := fun _ => .inr (not_remembered h hl)
  snapshot := .inl hsnap
  standing := fun _ => .inl hsame.running.2
  completed := fun e => by
    rw [hsame.running.2] at e
    cases e
  terminal := fun e => by
    rw [hsame.running.1] at e
    cases e
  flag := fun e => .inl (hsame.flag.trans e)
  worker := by
    rcases htaken with e | hlapsed
    · exact .inl (hw.trans e.symm)
    · refine .inr (.inr (fun v hv u hne => hlapsed u ?_))
      rw [hw, Option.some.injEq] at hv
      rwa [hv]

/-- What may be written to a row that its owner gives up: it is completed
    exactly when its snapshot is, and queued only with an attempt left. -/
structure Settles (db : Database) (j j' : AnalysisJob) : Prop where
  id : j'.id = j.id
  scope : j'.repositoryId = j.repositoryId ∧ j'.ownerId = j.ownerId ∧
    j'.revisionValue = j.revisionValue ∧ j'.configHash = j.configHash
  attempts : j'.attempt = j.attempt ∧ j'.maxAttempts = j.maxAttempts
  snapshotId : j'.snapshotId = j.snapshotId
  status : j'.status ≠ .running
  workerId : j'.workerId = none
  leaseExpiresAt : j'.leaseExpiresAt = none
  backoff : j'.nextAttemptAt.isSome = true → j'.status = .queued
  completedAt : j'.completedAt.isSome = true ↔ j'.status.terminal = true
  queued : j'.status = .queued → j.attempt < j.maxAttempts
  isSealed : j'.status = .completed ↔ SealedJob db j
  flag : j.cancelRequested = true → j'.cancelRequested = true ∨ j'.status = .cancelled ∨
    j'.status = .completed

theorem rowOk_settles (h : Tables cfg db) (hj : j ∈ db.jobs) (hrun : j.status = .running)
    (hs : Settles db j j') : RowOk s p db j j' where
  id := hs.id
  scope := hs.scope
  wellFormed :=
    { worker := ⟨fun e => absurd e hs.status, fun e => by
        rw [hs.workerId] at e
        cases e⟩
      lease := by rw [hs.workerId, hs.leaseExpiresAt]
      backoff := hs.backoff
      completedAt := hs.completedAt
      attempts := by
        rw [hs.attempts.1, hs.attempts.2]
        exact (h.wellFormed j hj).attempts
      runningAttempt := fun e => absurd e hs.status
      queuedAttempt := fun e => by
        rw [hs.attempts.1, hs.attempts.2]
        exact hs.queued e }
  foreign := by
    intro u _ ho
    exact absurd (ownedBy_iff.mp ho).1 hs.status
  lease := fun e => absurd e hs.status
  snapshot := .inl hs.snapshotId
  standing := fun e => .inr (hs.isSealed.mpr e)
  completed := by
    intro e
    rcases hs.isSealed.mp e with ⟨id, hid, hsealed⟩
    exact ⟨id, hs.snapshotId.trans hid, hsealed⟩
  terminal := fun e => by
    rw [hrun] at e
    cases e
  flag := by
    intro e
    rcases hs.flag e with hf | hc | hc
    · exact .inl hf
    · exact .inr (.inl ⟨hc, by rw [hrun]; exact fun e => by cases e⟩)
    · exact .inr (.inr hc)
  worker := .inr (.inl hs.workerId)

/-- A running row has no backoff and is not done. -/
theorem running_columns (h : Tables cfg db) (hj : j ∈ db.jobs) (hrun : j.status = .running) :
    j.nextAttemptAt.isSome = false := by
  rw [Bool.eq_false_iff]
  intro e
  have := (h.wellFormed j hj).backoff e
  rw [hrun] at this
  cases this

theorem settles_complete (h : Tables cfg db) (hj : j ∈ db.jobs) (hrun : j.status = .running)
    (hs : SealedJob db j) (completedAt : Nat) : Settles db j (j.complete completedAt) := by
  refine ⟨rfl, ⟨rfl, rfl, rfl, rfl⟩, ⟨rfl, rfl⟩, rfl, ?_, rfl, rfl, ?_, ?_, ?_, ?_, ?_⟩
  · exact fun e => by cases e
  · intro e
    rw [show (j.complete completedAt).nextAttemptAt = j.nextAttemptAt from rfl,
      running_columns h hj hrun] at e
    cases e
  · exact ⟨fun _ => rfl, fun _ => rfl⟩
  · exact fun e => by cases e
  · exact ⟨fun _ => hs, fun _ => rfl⟩
  · exact fun _ => .inr (.inr rfl)

theorem settles_completeSealed (hs : SealedJob db j) (completedAt : Nat) :
    Settles db j (j.completeSealed completedAt) := by
  refine ⟨rfl, ⟨rfl, rfl, rfl, rfl⟩, ⟨rfl, rfl⟩, rfl, ?_, rfl, rfl, ?_, ?_, ?_, ?_, ?_⟩
  · exact fun e => by cases e
  · exact fun e => by cases e
  · exact ⟨fun _ => rfl, fun _ => rfl⟩
  · exact fun e => by cases e
  · exact ⟨fun _ => hs, fun _ => rfl⟩
  · exact fun _ => .inr (.inr rfl)

theorem settles_cancel (hns : ¬ SealedJob db j) (now : Nat) : Settles db j (j.cancel now) := by
  refine ⟨rfl, ⟨rfl, rfl, rfl, rfl⟩, ⟨rfl, rfl⟩, rfl, ?_, rfl, rfl, ?_, ?_, ?_, ?_, ?_⟩
  · exact fun e => by cases e
  · exact fun e => by cases e
  · exact ⟨fun _ => rfl, fun _ => rfl⟩
  · exact fun e => by cases e
  · exact ⟨fun e => (by cases e), fun e => absurd e hns⟩
  · exact fun _ => .inr (.inl rfl)

theorem settles_fail (hns : ¬ SealedJob db j) (code message : String) (now : Nat) :
    Settles db j (j.fail code message now) := by
  refine ⟨rfl, ⟨rfl, rfl, rfl, rfl⟩, ⟨rfl, rfl⟩, rfl, ?_, rfl, rfl, ?_, ?_, ?_, ?_, ?_⟩
  · exact fun e => by cases e
  · exact fun e => by cases e
  · exact ⟨fun _ => rfl, fun _ => rfl⟩
  · exact fun e => by cases e
  · exact ⟨fun e => (by cases e), fun e => absurd e hns⟩
  · exact fun e => .inl e

theorem settles_requeue (h : Tables cfg db) (hj : j ∈ db.jobs) (hrun : j.status = .running)
    (hns : ¬ SealedJob db j) (hlt : j.attempt < j.maxAttempts) (code message : String)
    (nextAttemptAt : Nat) : Settles db j (j.requeue code message nextAttemptAt) := by
  have hdone := (h.wellFormed j hj).completedAt
  rw [hrun] at hdone
  refine ⟨rfl, ⟨rfl, rfl, rfl, rfl⟩, ⟨rfl, rfl⟩, rfl, ?_, rfl, rfl, fun _ => rfl, hdone,
    fun _ => hlt, ?_, fun e => .inl e⟩
  · exact fun e => by cases e
  · exact ⟨fun e => (by cases e), fun e => absurd e hns⟩

/-- A failure settles the row by the attempt that was loaded. -/
theorem settles_failure (h : Tables cfg db) (hj : j ∈ db.jobs) (hrun : j.status = .running)
    (hns : ¬ SealedJob db j) (hm : ctx.Matches j) (failure : Failure) (now : Nat) :
    Settles db j (failure.values ctx now j) := by
  cases failure with
  | error message =>
    unfold Failure.values
    split
    · exact settles_fail hns _ _ _
    · rename_i hlt
      refine settles_requeue h hj hrun hns ?_ _ _ _
      have h₁ := hm.attempt
      have h₂ := hm.maxAttempts
      omega
  | resourceExceeded message => exact settles_fail hns _ _ _

theorem settles_stale (h : Tables cfg db) (hj : j ∈ db.jobs) (hrun : j.status = .running)
    (hns : ¬ SealedJob db j) (hm : ctx.Matches j) (now : Nat) :
    Settles db j (staleValues ctx now j) := by
  unfold staleValues
  split
  · rename_i hlt
    refine settles_requeue h hj hrun hns ?_ _ _ _
    rw [hm.attempt, hm.maxAttempts]
    exact hlt
  · exact settles_fail hns _ _ _

end Values

section Guards

variable {cfg : Settings} {s : State} {w : Nat} {db db' : Database}

variable {guard : AnalysisJob → Bool} {f : AnalysisJob → AnalysisJob} {jobId : Nat} {require : Bool}

theorem updateJobs_some (h : db.updateJobs guard f = some db') :
    (∃ j ∈ db.jobs, guard j = true) ∧
      db' = { db with jobs := Rows.updateWhere guard f db.jobs } := by
  unfold Database.updateJobs at h
  split at h
  · cases h
  · rename_i hcount
    exact ⟨Rows.rowcount_ne_zero.mp hcount, (Option.some.inj h).symm⟩

/-- A guard that matched found the row of the job, with this owner. -/
theorem updateOwned_some (h : updateOwned db jobId w require f = some db') :
    (∃ j ∈ db.jobs, j.id = jobId ∧ j.ownedBy w = true ∧
      (require = true → j.cancelRequested = false)) ∧
      db' = { db with jobs := Rows.updateWhere (fun j => j.id = jobId ∧ j.ownedBy w ∧
        (require = true → j.cancelRequested = false)) f db.jobs } := by
  rcases updateJobs_some h with ⟨⟨j, hj, hg⟩, hdb⟩
  exact ⟨⟨j, hj, of_decide_eq_true hg⟩, hdb⟩

/-- Locking a row writes nothing. -/
theorem updateOwned_lock (h : updateOwned db jobId w require id = some db') :
    db' = db ∧ ∃ j ∈ db.jobs, j.id = jobId ∧ j.ownedBy w = true ∧
      (require = true → j.cancelRequested = false) := by
  rcases updateOwned_some h with ⟨hrow, hdb⟩
  rw [Rows.updateWhere_id] at hdb
  exact ⟨hdb, hrow⟩

/-- The rule for an update that claims nothing and moves no snapshot. -/
theorem inv_update {p : Process} (h : Inv cfg s p db)
    (hrow : ∀ j ∈ db.jobs, guard j = true → RowOk s p db j (f j))
    (hsnap : ∀ j ∈ db.jobs, guard j = true → (f j).snapshotId = j.snapshotId)
    (hattempt : ∀ j ∈ db.jobs, guard j = true → (f j).attempt = j.attempt) :
    Inv cfg s p { db with jobs := Rows.updateWhere guard f db.jobs } := by
  refine inv_updateJobs h hrow (indexes_updateJobs h.tables hrow hsnap) (fun j hj => ?_)
    h.tables.claimsOld
  by_cases hg : guard j = true
  · rw [if_pos hg, hattempt j hj hg]
    exact h.tables.claims j hj
  · rw [if_neg hg]
    exact h.tables.claims j hj

/-- The rows after an update, from the row of the job before. -/
theorem ifOwned_update (h : Tables cfg db) (hdb : db'.jobs = Rows.updateWhere guard f db.jobs)
    {j : AnalysisJob} (hj : j ∈ db.jobs) (hid : j.id = jobId) (hg : guard j = true)
    (hf : ∀ x, (f x).id = x.id) {P : AnalysisJob → Prop} (hP : P (f j)) :
    IfOwned db' w jobId P := by
  intro j' hj' hid' _
  rw [hdb] at hj'
  rcases Rows.mem_updateWhere.mp hj' with ⟨hmem, hg'⟩ | ⟨x, hx, _, rfl⟩
  · rw [h.job_eq hmem hj (hid'.trans hid.symm), hg] at hg'
    cases hg'
  · have hxj : x = j := h.job_eq hx hj ((hf x).symm.trans (hid'.trans hid.symm))
    rw [hxj]
    exact hP

end Guards

/-- The invariant and the stand after a transaction of worker `w`. -/
def TransactionOk (cfg : Settings) (s : State) (w : Nat) (result : Database × Activity) : Prop :=
  Inv cfg s (.worker w) result.1 ∧ WorkerOk result.1 w result.2

section Exits

variable {cfg : Settings} {s : State} {w : Nat} {db : Database}

variable {resume : Resume} {ctx : StageContext} {t : RiSnapshot} {j copy : AnalysisJob} {now : Nat}

theorem resume_ok (h : ∀ now rest, resume = .sweep now rest → now ≤ db.now) :
    WorkerOk db w resume.activity := by
  cases resume with
  | run => trivial
  | sweep now rest => exact h now rest rfl

theorem settle_ok (h : Inv cfg s (.worker w) db) {values : AnalysisJob → AnalysisJob}
    (hvalues : IfOwned db w ctx.jobId (fun j => Settles db j (values j)))
    (hresume : ∀ now rest, resume = .sweep now rest → now ≤ db.now) :
    TransactionOk cfg s w (settle w db ctx values resume) := by
  unfold settle
  split
  · exact ⟨h, trivial⟩
  · rename_i db' hupdate
    rcases updateOwned_some hupdate with ⟨_, rfl⟩
    have hsettles : ∀ j ∈ db.jobs, decide (j.id = ctx.jobId ∧ j.ownedBy w = true ∧
        (false = true → j.cancelRequested = false)) = true →
        j.status = .running ∧ Settles db j (values j) := by
      intro j hj hg
      rcases of_decide_eq_true hg with ⟨hid, ho, _⟩
      exact ⟨(ownedBy_iff.mp ho).1, hvalues j hj hid ho⟩
    refine ⟨inv_update h (fun j hj hg => ?_) (fun j hj hg => (hsettles j hj hg).2.snapshotId)
      (fun j hj hg => (hsettles j hj hg).2.attempts.1), resume_ok hresume⟩
    exact rowOk_settles h.tables hj (hsettles j hj hg).1 (hsettles j hj hg).2

/-- The snapshot a session finds for its job is the one the row points at. -/
theorem snapshot_row (hfind : ctx.snapshot db = some t) (he : j.snapshotId = ctx.snapshotId) :
    t ∈ db.snapshots ∧ j.snapshotId = some t.snapshotId := by
  unfold StageContext.snapshot at hfind
  cases hid : ctx.snapshotId with
  | none =>
    rw [hid] at hfind
    cases hfind
  | some id =>
    rw [hid] at hfind
    rcases mem_of_snapshot hfind with ⟨ht, htid⟩
    exact ⟨ht, by rw [he, hid, htid]⟩

theorem sealedJob_of_completed (hfind : ctx.snapshot db = some t) (hstate : t.state = .completed)
    (he : j.snapshotId = ctx.snapshotId) : SealedJob db j := by
  rcases snapshot_row hfind he with ⟨ht, hpoint⟩
  exact ⟨_, hpoint, t, ht, rfl, hstate⟩

theorem not_sealed_of_state (h : Tables cfg db) (hfind : ctx.snapshot db = some t)
    (hstate : t.state ≠ .completed) (he : j.snapshotId = ctx.snapshotId) : ¬ SealedJob db j := by
  rintro ⟨id, hid, u, hu, huid, hdone⟩
  rcases snapshot_row hfind he with ⟨ht, hpoint⟩
  rw [hpoint, Option.some.injEq] at hid
  rw [h.snapshot_eq hu ht (huid.trans hid.symm)] at hdone
  exact hstate hdone

theorem not_sealed_of_none (hfind : ctx.snapshot db = none) (he : j.snapshotId = ctx.snapshotId) :
    ¬ SealedJob db j := by
  rintro ⟨id, hid, u, hu, huid, _⟩
  unfold StageContext.snapshot at hfind
  rw [← he, hid] at hfind
  have hnot := List.find?_eq_none.mp hfind u hu
  exact hnot (decide_eq_true huid)

/-- Failing the snapshot of a job that is owned leaves a job without a
    completed snapshot, and everything else as it was. -/
theorem markFailed_ok (h : Inv cfg s (.worker w) db) (hfind : ctx.snapshot db = some t)
    (hstate : t.state = .building) (hj : j ∈ db.jobs) (hid : j.id = ctx.jobId)
    (howned : j.ownedBy w = true) (he : j.snapshotId = ctx.snapshotId) (code : String) :
    Inv cfg s (.worker w) (markFailed db t.snapshotId code) ∧
      ∀ x ∈ db.jobs, x.id = ctx.jobId → x = j ∧
        ¬ SealedJob (markFailed db t.snapshotId code) x := by
  have ht := h.tables
  have hne : t.state ≠ .completed := by
    rw [hstate]
    exact fun e => by cases e
  have hns := not_sealed_of_state ht hfind hne he
  rcases snapshot_row hfind he with ⟨htm, hpoint⟩
  have hnot : ¬ Sealed db t.snapshotId := fun hs => hns ⟨_, hpoint, hs⟩
  refine ⟨inv_failSnapshot h (transition_fail code) (fun _ => rfl) hnot
    ⟨j, hj, hpoint, fun u hu ho => ?_⟩, fun x hx hxid => ?_⟩
  · have hwk := (ownedBy_iff.mp howned).2
    rw [(ownedBy_iff.mp ho).2, Option.some.injEq] at hwk
    exact hu (congrArg Process.worker hwk.symm)
  · have hxj := ht.job_eq hx hj (hxid.trans hid.symm)
    refine ⟨hxj, ?_⟩
    rw [hxj]
    rintro ⟨id, hpid, hs⟩
    exact hns ⟨id, hpid, (sealed_failSnapshot (fun _ => rfl) hnot id).mp hs⟩

theorem cancel_ok (h : Inv cfg s (.worker w) db) {inTry : Bool}
    (hctx : IfOwned db w ctx.jobId (fun j => j.snapshotId = ctx.snapshotId))
    (hresume : ∀ now rest, resume = .sweep now rest → now ≤ db.now) :
    TransactionOk cfg s w (cancel w db ctx inTry resume) := by
  unfold cancel
  split
  · exact ⟨h, trivial⟩
  · rename_i db' hlock
    rcases updateOwned_lock hlock with ⟨rfl, j, hj, hid, howned, _⟩
    have hcancel : (∀ x ∈ db'.jobs, x.snapshotId = ctx.snapshotId → ¬ SealedJob db' x) →
        TransactionOk cfg s w (settle w db' ctx (AnalysisJob.cancel db'.now) resume) := by
      intro hns
      exact settle_ok h
        (fun x hx hxid ho => settles_cancel (hns x hx (hctx x hx hxid ho)) _) hresume
    split
    · rename_i hfind
      exact hcancel (fun x _ e => not_sealed_of_none hfind e)
    · rename_i t hfind
      split
      · rename_i hstate
        refine settle_ok h (fun x hx hxid ho => settles_completeSealed ?_ _) hresume
        exact sealedJob_of_completed hfind hstate (hctx x hx hxid ho)
      · rename_i hstate
        split
        · refine hcancel (fun x _ e => not_sealed_of_state h.tables hfind ?_ e)
          rw [hstate]
          exact fun e => by cases e
        · rcases markFailed_ok h hfind hstate hj hid howned (hctx j hj hid howned) cancelledCode
            with ⟨hinv, hrows⟩
          exact ⟨hinv, fun x hx hxid _ => (hrows x hx hxid).2, hresume⟩
      · rename_i hstate
        refine hcancel (fun x _ e => not_sealed_of_state h.tables hfind ?_ e)
        rw [hstate]
        exact fun e => by cases e

theorem retryOrFail_ok (h : Inv cfg s (.worker w) db) {failure : Failure}
    (hctx : IfOwned db w ctx.jobId (fun j => ctx.Matches j ∧ j.snapshotId = ctx.snapshotId)) :
    TransactionOk cfg s w (retryOrFail w db ctx failure now) := by
  have hresume : ∀ n rest, Resume.run = .sweep n rest → n ≤ db.now := fun _ _ e => by cases e
  unfold retryOrFail
  split
  · exact ⟨h, trivial⟩
  · rename_i db' hlock
    rcases updateOwned_lock hlock with ⟨rfl, j, hj, hid, howned, _⟩
    have hfail : (∀ x ∈ db'.jobs, x.snapshotId = ctx.snapshotId → ¬ SealedJob db' x) →
        TransactionOk cfg s w (settle w db' ctx (failure.values ctx now) .run) := by
      intro hns
      refine settle_ok h (fun x hx hxid ho => ?_) hresume
      rcases hctx x hx hxid ho with ⟨hm, he⟩
      exact settles_failure h.tables hx (ownedBy_iff.mp ho).1 (hns x hx he) hm failure now
    split
    · rename_i hfind
      exact hfail (fun x _ e => not_sealed_of_none hfind e)
    · rename_i t hfind
      split
      · rename_i hstate
        refine settle_ok h (fun x hx hxid ho => settles_completeSealed ?_ _) hresume
        exact sealedJob_of_completed hfind hstate (hctx x hx hxid ho).2
      · rename_i hstate
        split
        · refine hfail (fun x _ e => not_sealed_of_state h.tables hfind ?_ e)
          rw [hstate]
          exact fun e => by cases e
        · rcases hctx j hj hid howned with ⟨hm, he⟩
          rcases markFailed_ok h hfind hstate hj hid howned he failure.code with ⟨hinv, hrows⟩
          refine ⟨hinv, fun x hx hxid _ => ?_⟩
          rcases hrows x hx hxid with ⟨rfl, hns⟩
          exact ⟨hm, hns⟩
      · rename_i hstate
        refine hfail (fun x _ e => not_sealed_of_state h.tables hfind ?_ e)
        rw [hstate]
        exact fun e => by cases e

/-- The row that a sweep reclaimed is the row it had loaded. -/
theorem reclaim_ok (h : Inv cfg s (.worker w) s.db) (hstale : StaleOk s.db copy)
    (hreclaim : reclaim cfg s.db w copy = some db) :
    Inv cfg s (.worker w) db ∧ (∃ j ∈ db.jobs, j.id = copy.id ∧ j.ownedBy w = true) ∧
      IfOwned db w copy.id (fun j => copy.context.Matches j ∧ j.snapshotId = copy.snapshotId) := by
  rcases updateJobs_some hreclaim with ⟨⟨j, hj, hg⟩, rfl⟩
  have hjg := of_decide_eq_true hg
  refine ⟨?_, ⟨_, Rows.updated_mem hj hg, hjg.1, ownedBy_iff.mpr ⟨hjg.2.1, rfl⟩⟩, ?_⟩
  · refine inv_update h (fun x hx hgx => ?_) (fun _ _ _ => rfl) (fun _ _ _ => rfl)
    rcases of_decide_eq_true hgx with ⟨_, hrun, _, _, t, ht, hlt⟩
    refine rowOk_leased h hx ⟨rfl, ⟨rfl, rfl, rfl, rfl⟩, ⟨rfl, rfl⟩, ⟨hrun, hrun⟩, rfl, rfl, rfl⟩
      rfl rfl rfl (.inr (fun u _ y hy hid _ => ?_))
    -- The guard of the reclaim has looked at the lease itself.
    rw [h.tables.job_eq hy hx hid]
    exact ⟨t, ht, hlt⟩
  · rcases hstale.unchanged j hj hjg.1 hjg.2.1 hjg.2.2.1 hjg.2.2.2.1 with ⟨hm, hs⟩
    refine ifOwned_update h.tables rfl hj hjg.1 ?_ ?_ ?_
    · exact hg
    · exact fun _ => rfl
    · exact ⟨⟨hm.attempt, hm.maxAttempts, hm.repositoryId⟩, hs⟩

theorem reconcileStale_ok (h : Inv cfg s (.worker w) s.db) {rest : List Nat}
    (hstale : StaleOk s.db copy) (hnow : now ≤ s.db.now) :
    TransactionOk cfg s w (reconcileStale cfg w s.db copy now rest) := by
  unfold reconcileStale
  split
  · exact ⟨h, hnow⟩
  · rename_i db hreclaim
    rcases reclaim_ok h hstale hreclaim with ⟨hinv, ⟨j, hj, hid, hown⟩, hctx⟩
    have hclock : db.now = s.db.now := hinv.now
    have hresume : ∀ n r, Resume.sweep now rest = .sweep n r → n ≤ db.now := by
      rintro n r ⟨⟩
      exact hclock ▸ hnow
    have hsettle : (∀ x ∈ db.jobs, x.snapshotId = copy.context.snapshotId → ¬ SealedJob db x) →
        TransactionOk cfg s w
          (settle w db copy.context (staleValues copy.context now) (.sweep now rest)) := by
      intro hns
      refine settle_ok hinv (fun x hx hxid ho => ?_) hresume
      rcases hctx x hx hxid ho with ⟨hm, he⟩
      exact settles_stale hinv.tables hx (ownedBy_iff.mp ho).1 (hns x hx he) hm now
    simp only
    split
    · exact cancel_ok hinv (fun x hx hxid ho => (hctx x hx hxid ho).2) hresume
    · split
      · rename_i hfind
        exact hsettle (fun x _ e => not_sealed_of_none hfind e)
      · rename_i t hfind
        split
        · rename_i hstate
          refine settle_ok hinv (fun x hx hxid ho => settles_completeSealed ?_ _) hresume
          exact sealedJob_of_completed hfind hstate (hctx x hx hxid ho).2
        · rename_i hstate
          -- The reclaim has made this worker the owner.
          rcases hctx j hj hid hown with ⟨hm, he⟩
          rcases markFailed_ok hinv hfind hstate hj hid hown he staleCode with ⟨hi, hrows⟩
          refine ⟨hi, fun x hx hxid _ => ?_, hclock ▸ hnow⟩
          rcases hrows x hx hxid with ⟨rfl, hns⟩
          exact ⟨hm, hns⟩
        · rename_i hstate
          refine hsettle (fun x _ e => not_sealed_of_state hinv.tables hfind ?_ e)
          rw [hstate]
          exact fun e => by cases e

end Exits

section Runs

variable {cfg : Settings} {s : State} {w : Nat} {db : Database}

/-- A worker that has polled and one that holds a stale row do not meet in the
    row: the lease that is remembered lapsed before the poll. -/
def Lag (s : State) : Prop :=
  ∀ u w copy n rest candidateId now, s.worker u = .stale copy n rest →
    s.worker w = .polled candidateId now → copy.id = candidateId → copy.workerId = some w →
      ∃ t, copy.leaseExpiresAt = some t ∧ t < now

variable {candidateId now jobId : Nat} {j : AnalysisJob} {stage : Stage} {ctx : StageContext}

/-- A queued row that is claimed. -/
theorem rowOk_claim (h : Inv cfg s (.worker w) s.db) (hlag : Lag s)
    (hpolled : s.worker w = .polled candidateId now) (hj : j ∈ s.db.jobs) (hid : j.id = candidateId)
    (hqueued : j.status = .queued) :
    RowOk s (.worker w) s.db j (j.claim w now (now + cfg.leaseSeconds)) where
  id := rfl
  scope := ⟨rfl, rfl, rfl, rfl⟩
  wellFormed :=
    { worker := ⟨fun _ => rfl, fun _ => rfl⟩
      lease := ⟨fun _ => rfl, fun _ => rfl⟩
      backoff := fun e => by cases e
      completedAt := by
        have hdone := (h.tables.wellFormed j hj).completedAt
        rw [hqueued] at hdone
        exact hdone
      attempts := (h.tables.wellFormed j hj).queuedAttempt hqueued
      runningAttempt := fun _ => Nat.le_add_left 1 j.attempt
      queuedAttempt := fun e => by cases e }
  foreign := by
    intro u hu ho
    have hwk : some w = some u := (ownedBy_iff.mp ho).2
    rw [Option.some.injEq] at hwk
    exact absurd (congrArg Process.worker hwk) hu
  lease := by
    refine fun _ => .inr ?_
    rintro ⟨u, _, copy, n, rest, hstale, hcopy, hwk, hlease⟩
    rcases hlag u w copy n rest candidateId now hstale hpolled (hcopy.symm.trans hid) hwk.symm
      with ⟨t, ht, hlt⟩
    have hnew : some (now + cfg.leaseSeconds) = copy.leaseExpiresAt := hlease
    rw [ht, Option.some.injEq] at hnew
    omega
  snapshot := .inl rfl
  standing := fun _ => .inl rfl
  completed := fun e => by cases e
  terminal := fun e => by
    rw [hqueued] at e
    cases e
  flag := .inl
  worker := by
    refine .inr (.inr (fun v _ u _ x hx hxid hu => ?_))
    -- Nobody owns a queued row.
    have hnone := (h.tables.wellFormed j hj).worker_none
      (by rw [hqueued]; exact fun e => by cases e)
    rw [h.tables.job_eq hx hj hxid, hnone.1] at hu
    cases hu

theorem claim_ok (h : Inv cfg s (.worker w) s.db) (hlag : Lag s)
    (hpolled : s.worker w = .polled candidateId now)
    (hclaim : claim cfg s.db w candidateId now = some db) :
    TransactionOk cfg s w (db, .claimed candidateId) := by
  unfold claim at hclaim
  rcases Option.map_eq_some_iff.mp hclaim with ⟨db', hupdate, rfl⟩
  rcases updateJobs_some hupdate with ⟨⟨j, hj, hg⟩, rfl⟩
  rcases of_decide_eq_true hg with ⟨hid, hqueued⟩
  have hrow : ∀ x ∈ s.db.jobs, decide (x.id = candidateId ∧ x.status = .queued) = true →
      RowOk s (.worker w) s.db x (x.claim w now (now + cfg.leaseSeconds)) := by
    intro x hx hgx
    rcases of_decide_eq_true hgx with ⟨hxid, hxq⟩
    exact rowOk_claim h hlag hpolled hx hxid hxq
  refine ⟨inv_updateJobs h hrow (indexes_updateJobs h.tables hrow (fun _ _ _ => rfl))
    (fun x hx => ?_) (fun x hx => ?_), ?_⟩
  · by_cases hgx : decide (x.id = candidateId ∧ x.status = .queued) = true
    · rw [if_pos hgx, count_append, h.tables.claims x hx, (of_decide_eq_true hgx).1,
        count_singleton_self]
      rfl
    · -- Another row: the candidate itself was queued.
      have hne : x.id ≠ candidateId := by
        intro e
        rw [h.tables.job_eq hx hj (e.trans hid.symm)] at hgx
        exact hgx hg
      rw [if_neg hgx, count_append, h.tables.claims x hx,
        count_eq_zero.mpr (fun hm => hne (mem_singleton.mp hm))]
      rfl
  · rcases mem_append.mp hx with hx | hx
    · exact h.tables.claimsOld x hx
    · rw [mem_singleton.mp hx, ← hid]
      exact h.tables.jobsOld j hj
  · have hns : ¬ SealedJob s.db j := h.tables.not_sealed hj
      (by rw [hqueued]; exact fun e => by cases e) (by rw [hqueued]; exact fun e => by cases e)
    refine ifOwned_update h.tables rfl hj hid ?_ ?_ ?_
    · exact hg
    · exact fun _ => rfl
    · exact hns

/-- A row that an update leaves with its worker. -/
theorem SameJob.kept {db' : Database} {j' : AnalysisJob} (h : SameJob j j')
    (hdb : db'.snapshots = db.snapshots) (hsnap : j'.snapshotId = j.snapshotId) :
    Kept db db' j j' := by
  have hsealed : ∀ id, Sealed db' id ↔ Sealed db id := fun id => by
    unfold Sealed
    rw [hdb]
  have hjob : SealedJob db' j' ↔ SealedJob db j := by
    unfold SealedJob
    rw [hsnap]
    exact exists_congr (fun id => and_congr_right (fun _ => hsealed id))
  refine ⟨h.id.symm, h.attempts.1, h.attempts.2, h.scope.1, hsnap, (not_congr hjob).mpr,
    hjob.mpr, fun id _ hb => ?_⟩
  unfold Building
  rw [hdb]
  exact hb

/-- A heartbeat only moves the lease of a row that its worker owns. -/
theorem renew_ok (h : Inv cfg s (.worker w) s.db) {flag : Bool}
    (hrenew : renew cfg s.db w jobId = some (db, flag)) :
    Inv cfg s (.worker w) db ∧ ∀ q, WorkerOk s.db w q → WorkerOk db w q := by
  unfold renew at hrenew
  rcases Option.map_eq_some_iff.mp hrenew with ⟨db', hupdate, hpair⟩
  rw [Prod.mk.injEq] at hpair
  rcases hpair with ⟨rfl, _⟩
  rcases updateJobs_some hupdate with ⟨_, rfl⟩
  have hsame : ∀ x : AnalysisJob, x.status = .running →
      SameJob x (x.renew (s.db.now + cfg.leaseSeconds)) := fun x hrun =>
    ⟨rfl, ⟨rfl, rfl, rfl, rfl⟩, ⟨rfl, rfl⟩, ⟨hrun, hrun⟩, rfl, rfl, rfl⟩
  constructor
  · refine inv_update h (fun x hx hg => ?_) (fun _ _ _ => rfl) (fun _ _ _ => rfl)
    rcases ownedBy_iff.mp (of_decide_eq_true hg).2 with ⟨hrun, hwk⟩
    exact rowOk_leased h hx (hsame x hrun) rfl hwk rfl (.inl hwk)
  · intro q hq
    have hframe : WorkerFrame w s.db { s.db with
        jobs := Rows.updateWhere (fun j => j.id = jobId ∧ j.ownedBy w)
          (AnalysisJob.renew (s.db.now + cfg.leaseSeconds)) s.db.jobs } := by
      refine ⟨fun j' hj' ho => ?_, fun _ => id, Nat.le_refl _⟩
      rcases Rows.mem_updateWhere.mp hj' with ⟨hj, _⟩ | ⟨x, hx, hg, rfl⟩
      · exact ⟨j', hj, ho, rfl, rfl, rfl, rfl, rfl, id, id, fun _ _ => id⟩
      · have hown := (of_decide_eq_true hg).2
        exact ⟨x, hx, hown, (hsame x (ownedBy_iff.mp hown).1).kept rfl rfl⟩
    refine workerOk_frame hframe hq (fun copy now rest _ hstale =>
      ⟨hstale.lapsed, fun j' hj' hid hrun hwk hlease => ?_⟩)
    rcases Rows.mem_updateWhere.mp hj' with ⟨hj, _⟩ | ⟨x, hx, hg, rfl⟩
    · exact hstale.unchanged j' hj hid hrun hwk hlease
    · -- A renewed lease has not lapsed.
      rcases hstale.lapsed with ⟨t, ht, hlt⟩
      have hnew : some (s.db.now + cfg.leaseSeconds) = copy.leaseExpiresAt := hlease
      rw [ht, Option.some.injEq] at hnew
      omega

theorem heartbeat_ok (h : Inv cfg s (.worker w) s.db) {q : Activity} (hq : WorkerOk s.db w q)
    (jobId : Nat) : TransactionOk cfg s w (heartbeat cfg w s.db jobId q) := by
  have hsignal : ∀ d q', SameStage q q' → WorkerOk d w q → WorkerOk d w q' := by
    rintro d q' (rfl | ⟨ctx, stage, signal, signal', finished, rfl, rfl⟩) hd
    · exact hd
    · exact hd
  rcases heartbeat_cases cfg w s.db jobId q with ⟨q', hsame, ⟨_, heq⟩ | ⟨db, flag, hrenew, heq⟩⟩
  · rw [heq]
    exact ⟨h, hsignal s.db q' hsame hq⟩
  · rcases renew_ok h hrenew with ⟨hinv, hstand⟩
    rw [heq]
    exact ⟨hinv, hsignal db q' hsame (hstand q hq)⟩

/-- The guarded update of a checkpoint. -/
theorem checkpoint_update (h : Inv cfg s (.worker w) s.db) (hupdate : updateOwned s.db jobId w false
      (AnalysisJob.checkpoint stage (s.db.now + cfg.leaseSeconds)) = some db) :
    Inv cfg s (.worker w) db ∧ db.snapshots = s.db.snapshots ∧
      ∃ j ∈ s.db.jobs, j.id = jobId ∧ j.ownedBy w = true ∧ ∃ j' ∈ db.jobs,
        SameJob j j' ∧ j'.snapshotId = j.snapshotId ∧ j'.workerId = some w ∧
          j'.leaseExpiresAt = some (db.now + cfg.leaseSeconds) := by
  rcases updateOwned_some hupdate with ⟨⟨j, hj, hid, hown, _⟩, rfl⟩
  have hsame : ∀ x : AnalysisJob, x.status = .running →
      SameJob x (x.checkpoint stage (s.db.now + cfg.leaseSeconds)) := fun x hrun =>
    ⟨rfl, ⟨rfl, rfl, rfl, rfl⟩, ⟨rfl, rfl⟩, ⟨hrun, hrun⟩, rfl, rfl, rfl⟩
  refine ⟨inv_update h (fun x hx hg => ?_) (fun _ _ _ => rfl) (fun _ _ _ => rfl), rfl, j, hj,
    hid, hown, j.checkpoint stage (s.db.now + cfg.leaseSeconds), ?_,
    hsame j (ownedBy_iff.mp hown).1, rfl, (ownedBy_iff.mp hown).2, rfl⟩
  · rcases ownedBy_iff.mp (of_decide_eq_true hg).2.1 with ⟨hrun, hwk⟩
    exact rowOk_leased h hx (hsame x hrun) rfl hwk rfl (.inl hwk)
  · exact Rows.updated_mem hj (decide_eq_true ⟨hid, hown, fun e => by cases e⟩)

theorem checkpoint_ok (h : Inv cfg s (.worker w) s.db) (hstage : stage ≠ .openSnapshot)
    (hq : WorkerOk s.db w (.leaving ctx stage)) :
    TransactionOk cfg s w (checkpoint cfg w s.db ctx stage) := by
  unfold checkpoint
  split
  · exact ⟨h, trivial⟩
  · rename_i db hupdate
    rcases checkpoint_update h hupdate with
      ⟨hinv, hsnaps, j, hj, hid, hown, j', hj', hsame, hsnap, _⟩
    have hk := hsame.kept hsnaps hsnap
    have honly : ∀ x ∈ db.jobs, x.id = ctx.jobId → x = j' := fun x hx hxid =>
      hinv.tables.job_eq hx hj' (hxid.trans (hid.symm.trans hsame.id.symm))
    have hdone : StageOk s.db ctx j stage true := hq j hj hid hown
    refine ⟨hinv, ?_⟩
    cases stage with
    | openSnapshot => exact absurd rfl hstage
    | extract =>
      intro x hx hxid _
      rw [honly x hx hxid]
      exact built_kept hk hdone
    | sealSnapshot =>
      intro x hx hxid _
      rw [honly x hx hxid]
      exact finished_kept hk hdone

/-- The flush of a job that now points at another snapshot, after the update
    that gave it a fresh lease. -/
theorem inv_point (h : Inv cfg s (.worker w) db) (hj : j ∈ db.jobs) (hown : j.ownedBy w = true)
    {n : Nat} (hlease : j.leaseExpiresAt = some (db.now + n)) (hns : ¬ SealedJob db j)
    {t : RiSnapshot} (ht : t ∈ db.snapshots) (hrepo : t.repositoryId = j.repositoryId)
    (hindexes : indexesHold (Rows.updateWhere (fun x => x.id = j.id)
      (AnalysisJob.point (some t.snapshotId)) db.jobs) = true) :
    Inv cfg s (.worker w) { db with
      jobs := Rows.updateWhere (fun x => x.id = j.id) (AnalysisJob.point (some t.snapshotId))
        db.jobs } := by
  have hrun := (ownedBy_iff.mp hown).1
  refine inv_updateJobs h (fun x hx hg => ?_) hindexes (fun x hx => ?_) h.tables.claimsOld
  · rw [h.tables.job_eq hx hj (of_decide_eq_true hg)]
    have hw := h.tables.wellFormed j hj
    exact
      { id := rfl
        scope := ⟨rfl, rfl, rfl, rfl⟩
        wellFormed := ⟨hw.worker, hw.lease, hw.backoff, hw.completedAt, hw.attempts,
          hw.runningAttempt, hw.queuedAttempt⟩
        foreign := by
          intro u hu ho
          have hwk : j.workerId = some u := (ownedBy_iff.mp ho).2
          rw [(ownedBy_iff.mp hown).2, Option.some.injEq] at hwk
          exact absurd (congrArg Process.worker hwk) hu
        lease := fun _ => .inr (not_remembered h hlease)
        snapshot := .inr ⟨hns, t, ht, rfl, hrepo⟩
        standing := fun hs => absurd hs hns
        completed := fun e => by
          have hc : j.status = .completed := e
          rw [hrun] at hc
          cases hc
        terminal := fun _ => rfl
        flag := .inl
        worker := .inl rfl }
  · by_cases hg : decide (x.id = j.id) = true
    · rw [if_pos hg]
      exact h.tables.claims x hx
    · rw [if_neg hg]
      exact h.tables.claims x hx

/-- Two rows cannot point at the snapshot that one of them was sealed by. -/
theorem reused_conflict (h : Tables cfg db) (hj : j ∈ db.jobs) (hns : ¬ SealedJob db j) {id : Nat}
    (hs : Sealed db id) :
    indexesHold (Rows.updateWhere (fun x => x.id = j.id) (AnalysisJob.point (some id))
      db.jobs) = false := by
  rw [Bool.eq_false_iff]
  intro hindexes
  rcases hs with ⟨t, ht, htid, hstate⟩
  rcases h.sealedBy t ht hstate with ⟨j', hj', hpoint, _⟩
  rw [htid] at hpoint
  have hne : j'.id ≠ j.id := by
    intro e
    rw [h.job_eq hj' hj e] at hpoint
    exact hns ⟨id, hpoint, t, ht, htid, hstate⟩
  have hkept : j' ∈ Rows.updateWhere (fun x => x.id = j.id) (AnalysisJob.point (some id)) db.jobs :=
    Rows.mem_updateWhere.mpr (.inl ⟨hj', decide_eq_false hne⟩)
  have hpointed : AnalysisJob.point (some id) j ∈
      Rows.updateWhere (fun x => x.id = j.id) (AnalysisJob.point (some id)) db.jobs :=
    Rows.updated_mem hj (decide_eq_true rfl)
  have heq := Rows.eq_of_column_eq (indexesHold_iff.mp hindexes).1 hkept hpointed hpoint rfl
  have hids : j'.id = (AnalysisJob.point (some id) j).id := congrArg AnalysisJob.id heq
  exact hne hids

theorem checkpointOpened_ok (h : Inv cfg s (.worker w) s.db)
    (hq : WorkerOk s.db w (.leaving ctx .openSnapshot)) :
    TransactionOk cfg s w (checkpointOpened cfg w s.db ctx) := by
  unfold checkpointOpened
  split
  · exact ⟨h, trivial⟩
  · rename_i db hupdate
    rcases checkpoint_update h hupdate with
      ⟨hinv, hsnaps, j, hj, hid, hown, j', hj', hsame, hsnap, hwk, hlease⟩
    have hk : Kept s.db db j j' := hsame.kept hsnaps hsnap
    have hdone : Opened s.db ctx j := hq j hj hid hown
    have hjob : ctx.jobId = j'.id := hid.symm.trans hsame.id.symm
    have hm : ctx.Matches j' := hdone.matching.kept hk
    have hns := hk.notSealed hdone.notSealed
    have hown' : j'.ownedBy w = true := ownedBy_iff.mpr ⟨hsame.running.2, hwk⟩
    simp only
    by_cases hopened : ctx.opened = true
    · -- The row of the new snapshot is flushed together with the pointer to it.
      have hrev : cfg.revision ctx.repositoryId =
          some ((cfg.revision ctx.repositoryId).getD "") := by
        have hscope := (hinv.tables.jobScope j' hj').1
        rw [hm.repositoryId] at hscope
        rw [Settings.revision, hscope]
        rfl
      split
      · rename_i hindexes
        have hnew : (newSnapshot cfg (.worker w) db ctx.repositoryId
            ((cfg.revision ctx.repositoryId).getD "")).InScope cfg := ⟨hrev, rfl, rfl⟩
        have hinserted := inv_insertSnapshot hinv rfl rfl hnew
        have hns' : ¬ SealedJob { db with
            snapshots := db.snapshots ++ [newSnapshot cfg (.worker w) db ctx.repositoryId
              ((cfg.revision ctx.repositoryId).getD "")]
            nextUuid := db.nextUuid + 1 } j' := by
          rintro ⟨id, hpoint, t, ht, htid, hstate⟩
          rcases mem_append.mp ht with ht | ht
          · exact hns ⟨id, hpoint, t, ht, htid, hstate⟩
          · rw [mem_singleton.mp ht] at hstate
            cases hstate
        unfold flushOpened at hindexes ⊢
        rw [if_pos hopened, hjob] at hindexes
        rw [if_pos hopened, hjob]
        have hlast : newSnapshot cfg (.worker w) db ctx.repositoryId
            ((cfg.revision ctx.repositoryId).getD "") ∈ db.snapshots ++
              [newSnapshot cfg (.worker w) db ctx.repositoryId
                ((cfg.revision ctx.repositoryId).getD "")] :=
          mem_append_right _ (mem_singleton.mpr rfl)
        have hpointed := inv_point hinserted hj' hown' hlease hns' hlast hm.repositoryId.symm
          hindexes
        refine ⟨hpointed, ifOwned_update hinv.tables rfl hj' rfl ?_ ?_ ?_⟩
        · exact decide_eq_true rfl
        · exact fun _ => rfl
        · have hreused : ctx.reused = false := by
            rw [hdone.opened, hopened]
            rfl
          exact ⟨⟨hm.attempt, hm.maxAttempts, hm.repositoryId⟩, hreused, db.nextUuid, rfl, rfl,
            _, hlast, rfl, rfl⟩
      · exact ⟨h, trivial⟩
    · -- A snapshot that another job has sealed cannot be pointed at.
      have hclosed : ctx.opened = false := by rwa [Bool.not_eq_true] at hopened
      rcases hdone.reused hclosed with ⟨id, hpoint, hs⟩
      have hs' : Sealed db id := by
        unfold Sealed
        rw [hsnaps]
        exact hs
      have hconflict := reused_conflict hinv.tables hj' hns hs'
      have hflush : indexesHold (flushOpened cfg w db ctx
          ((cfg.revision ctx.repositoryId).getD "")).jobs = false := by
        unfold flushOpened
        rw [if_neg hopened, hpoint, hjob]
        exact hconflict
      rw [hflush]
      exact ⟨h, trivial⟩

theorem stageSeal_ok (h : Inv cfg s (.worker w) s.db) {signal : Signal} {rejection : Option String}
    (hq : WorkerOk s.db w (.inStage ctx .sealSnapshot signal false)) :
    TransactionOk cfg s w (stageSeal w s.db ctx signal rejection) := by
  unfold stageSeal
  split
  · rename_i hreused
    refine ⟨h, fun x hx hxid ho => ?_⟩
    have hbuilt : Built s.db ctx x := hq x hx hxid ho
    rw [hbuilt.reused] at hreused
    cases hreused
  · split
    · exact ⟨h, trivial⟩
    · exact ⟨h, trivial⟩
    · rename_i db id hlock hpoint
      rcases updateOwned_lock hlock with ⟨rfl, j, hj, hid, hown, hflag⟩
      have hbuilt : Built s.db ctx j := hq j hj hid hown
      rcases hbuilt.building with ⟨id', hctx, hrow, t, ht, htid, hstate⟩
      rw [hpoint, Option.some.injEq] at hctx
      rw [← hctx] at hrow htid
      have hns : ¬ Sealed s.db id := by
        rintro ⟨u, hu, huid, hdone⟩
        rw [h.tables.snapshot_eq hu ht (huid.trans htid.symm), hstate] at hdone
        cases hdone
      split
      · refine ⟨inv_failSnapshot h transition_rejectSeal (fun _ => rfl) hns
          ⟨j, hj, hrow, fun u hu ho => ?_⟩, trivial⟩
        have hwk := (ownedBy_iff.mp hown).2
        rw [(ownedBy_iff.mp ho).2, Option.some.injEq] at hwk
        exact hu (congrArg Process.worker hwk.symm)
      · simp only
        split
        · refine ⟨hid ▸ inv_completeSnapshot h hj hown (hflag rfl) hrow, fun x hx hxid ho => ?_⟩
          have hxj : x = j := h.tables.job_eq hx hj (hxid.trans hid.symm)
          rw [hxj]
          exact ⟨hbuilt.matching, hrow.trans hpoint.symm, id, hrow,
            (sealed_completeSnapshot ht htid id).mpr (.inr rfl)⟩
        · exact ⟨h, trivial⟩

theorem complete_ok (h : Inv cfg s (.worker w) s.db) (hq : WorkerOk s.db w (.completing ctx)) :
    TransactionOk cfg s w (complete w s.db ctx) := by
  unfold complete
  split
  · exact ⟨h, trivial⟩
  · rename_i db hupdate
    rcases updateOwned_some hupdate with ⟨_, rfl⟩
    refine ⟨inv_update h (fun x hx hg => ?_) (fun _ _ _ => rfl) (fun _ _ _ => rfl), trivial⟩
    rcases of_decide_eq_true hg with ⟨hid, hown, _⟩
    have hdone : Finished s.db ctx x := hq x hx hid hown
    have hrun := (ownedBy_iff.mp hown).1
    exact rowOk_settles h.tables hx hrun (settles_complete h.tables hx hrun hdone.isSealed _)

end Runs

section Steps

variable {cfg : Settings} {s : State} {w : Nat}

variable {db : Database} {jobId : Nat} {j : AnalysisJob} {ctx : StageContext}
  {rejection : Option String}

/-- What a session has loaded agrees with the row until the row changes. -/
theorem loaded_ok (h : Tables cfg db) (hj : db.job jobId = some j) {P : AnalysisJob → Prop}
    (hP : P j) : IfOwned db w jobId P := by
  rcases mem_of_job hj with ⟨hmem, hid⟩
  intro x hx hxid _
  rw [h.job_eq hx hmem (hxid.trans hid.symm)]
  exact hP

theorem reload_ok (h : Tables cfg db) (hj : db.job ctx.jobId = some j) (inTry : Bool) :
    WorkerOk db w (.cancelling (ctx.reload j) inTry .run) :=
  ⟨loaded_ok h hj rfl, fun _ _ e => by cases e⟩

theorem ownedAndCancelled_some (h : ownedAndCancelled w db jobId = some j) :
    db.job jobId = some j :=
  Option.eq_some_of_filter_eq_some h

/-- The snapshot that a stage is given is the one the row points at. -/
theorem stageOk_snapshotId {stage : Stage} (h : StageOk db ctx j stage false) :
    j.snapshotId = ctx.snapshotId := by
  cases stage with
  | openSnapshot =>
    have hq : Unopened db ctx j := h
    exact hq.snapshotId
  | extract | sealSnapshot =>
    have hq : Built db ctx j := h
    rcases hq.building with ⟨id, hctx, hrow, _⟩
    exact hrow.trans hctx.symm

theorem stageOpenSnapshot_ok {signal : Signal}
    (hq : WorkerOk db w (.inStage ctx .openSnapshot signal false)) :
    WorkerOk db w (stageOpenSnapshot cfg w db ctx signal) := by
  unfold stageOpenSnapshot
  split
  · trivial
  · split
    · rename_i t hfound
      have ht := mem_of_find?_eq_some hfound
      have hmatch := List.find?_some hfound
      simp only [decide_eq_true_eq] at hmatch
      intro x hx hxid ho
      have hun : Unopened db ctx x := hq x hx hxid ho
      refine ⟨⟨hun.matching.attempt, hun.matching.maxAttempts, hun.matching.repositoryId⟩, ?_,
        fun _ => ⟨_, rfl, t, ht, rfl, hmatch.2⟩, hun.notSealed⟩
      rw [hun.opened]
      rfl
    · intro x hx hxid ho
      have hun : Unopened db ctx x := hq x hx hxid ho
      exact ⟨⟨hun.matching.attempt, hun.matching.maxAttempts, hun.matching.repositoryId⟩,
        hun.reused, fun e => (by cases e), hun.notSealed⟩

theorem ready_ok (h : Inv cfg s (.worker w) s.db) {stage : Option Stage}
    (hq : WorkerOk s.db w (.ready ctx stage)) :
    TransactionOk cfg s w (next cfg w s.db rejection (.ready ctx stage)) := by
  unfold next
  simp only
  cases stage with
  | some stage =>
    split
    · exact ⟨h, fun x hx hxid ho => stageOk_snapshotId (hq x hx hxid ho),
        fun _ _ e => by cases e⟩
    · exact ⟨h, hq⟩
  | none =>
    split
    · refine ⟨h, fun x hx hxid ho => ?_, fun _ _ e => by cases e⟩
      have hdone : Finished s.db ctx x := hq x hx hxid ho
      exact hdone.snapshotId
    · exact ⟨h, hq⟩

/-- A sweep remembers a row whose lease lapsed before the sweep began. -/
theorem sweeping_ok (h : Inv cfg s (.worker w) s.db) {now : Nat} (hnow : now ≤ s.db.now)
    (ids : List Nat) : TransactionOk cfg s w (next cfg w s.db rejection (.sweeping now ids)) := by
  cases ids with
  | nil => exact ⟨h, trivial⟩
  | cons jobId rest =>
    unfold next
    simp only
    split
    · rename_i copy hfound
      rcases mem_of_job (Option.eq_some_of_filter_eq_some hfound) with ⟨hmem, _⟩
      have hlapsed := (Option.filter_eq_some_iff.mp hfound).2
      rcases (of_decide_eq_true hlapsed).2 with ⟨t, ht, hlt⟩
      refine ⟨h, ⟨⟨t, ht, Nat.lt_of_lt_of_le (of_decide_eq_true hlt) hnow⟩,
        fun x hx hxid _ _ _ => ?_⟩, hnow⟩
      rw [h.tables.job_eq hx hmem hxid]
      exact ⟨⟨rfl, rfl, rfl⟩, rfl⟩
    · exact ⟨h, hnow⟩

theorem idle_ok (h : Inv cfg s (.worker w) s.db) :
    TransactionOk cfg s w (next cfg w s.db rejection .idle) := by
  unfold next
  simp only
  split
  · rename_i candidateId hpoll
    refine ⟨h, Nat.le_refl _, fun x hx hxid ho => ?_⟩
    rcases Option.map_eq_some_iff.mp hpoll with ⟨j, hmin, hid⟩
    rcases mem_filter.mp (argmin_mem hmin) with ⟨hj, hg⟩
    -- A job that is polled is queued, so nobody owns it.
    have hrun := (ownedBy_iff.mp ho).1
    rw [h.tables.job_eq hx hj (hxid.trans hid.symm), (of_decide_eq_true hg).1] at hrun
    cases hrun
  · exact ⟨h, trivial⟩

/-- The stands after a stage body, and after a look at the row. -/
theorem next_ok (h : Inv cfg s (.worker w) s.db) (hlag : Lag s)
    (hq : WorkerOk s.db w (s.worker w)) (rejection : Option String) :
    TransactionOk cfg s w (next cfg w s.db rejection (s.worker w)) := by
  have ht := h.tables
  cases hw : s.worker w with
  -- The job is looked for, claimed and loaded.
  | idle => exact idle_ok h
  | polled candidateId now =>
    unfold next
    simp only
    split
    · rename_i db hclaim
      exact claim_ok h hlag hw hclaim
    · exact ⟨h, trivial⟩
  | claimed jobId =>
    rw [hw] at hq
    unfold next
    simp only
    split
    · rename_i j hj
      rcases mem_of_job hj with ⟨hmem, hid⟩
      refine ⟨h, fun x hx hxid ho => ?_⟩
      have hx' : x = j := ht.job_eq hx hmem hxid
      have hns : ¬ SealedJob s.db x := hq x hx (hxid.trans hid) ho
      rw [hx'] at hns ⊢
      exact ⟨⟨rfl, rfl, rfl⟩, rfl, rfl, rfl, hns⟩
    · exact ⟨h, trivial⟩
  -- The stages, with the checkpoint after each of them, and the completion.
  | ready ctx stage => exact ready_ok h (hw ▸ hq)
  | inStage ctx stage signal finished =>
    rw [hw] at hq
    cases finished with
    | true => exact ⟨h, hq⟩
    | false =>
      cases stage with
      | openSnapshot => exact ⟨h, stageOpenSnapshot_ok hq⟩
      | extract => exact ⟨h, hq⟩
      | sealSnapshot => exact stageSeal_ok h hq
  | leaving ctx stage =>
    rw [hw] at hq
    cases stage with
    | openSnapshot => exact checkpointOpened_ok h hq
    | extract => exact checkpoint_ok h (fun e => by cases e) hq
    | sealSnapshot => exact checkpoint_ok h (fun e => by cases e) hq
  | sealMissed ctx =>
    unfold next
    simp only
    split
    · exact ⟨h, trivial⟩
    · exact ⟨h, trivial⟩
  | completing ctx => exact complete_ok h (hw ▸ hq)
  | completeMissed ctx =>
    unfold next
    simp only
    split
    · rename_i j hj
      exact ⟨h, reload_ok ht (ownedAndCancelled_some hj) true⟩
    · exact ⟨h, trivial⟩
  -- A cancellation is written and settled.
  | cancellationObserved ctx =>
    unfold next
    simp only
    split
    · rename_i j hj
      exact ⟨h, reload_ok ht hj false⟩
    · exact ⟨h, trivial⟩
  | cancelling ctx inTry resume =>
    rw [hw] at hq
    exact cancel_ok h hq.1 hq.2
  | cancelMarked ctx inTry resume =>
    rw [hw] at hq
    exact settle_ok h (fun x hx hxid ho => settles_cancel (hq.1 x hx hxid ho) _) hq.2
  -- A failure is written and settled: the job waits for another attempt, or has failed.
  | raised ctx failure =>
    unfold next
    simp only
    split
    · rename_i j hj
      exact ⟨h, loaded_ok ht hj ⟨⟨rfl, rfl, rfl⟩, rfl⟩⟩
    · exact ⟨h, trivial⟩
  | failing ctx failure now =>
    rw [hw] at hq
    exact retryOrFail_ok h hq
  | failMissed ctx =>
    unfold next
    simp only
    split
    · rename_i j hj
      exact ⟨h, reload_ok ht (ownedAndCancelled_some hj) false⟩
    · exact ⟨h, trivial⟩
  | failMarked ctx failure now =>
    rw [hw] at hq
    refine settle_ok h (fun x hx hxid ho => ?_) (fun _ _ e => by cases e)
    rcases hq x hx hxid ho with ⟨hm, hns⟩
    exact settles_failure ht hx (ownedBy_iff.mp ho).1 hns hm failure now
  -- The sweep of the jobs whose worker is gone.
  | sweeping now ids =>
    rw [hw] at hq
    exact sweeping_ok h hq ids
  | stale copy now rest =>
    rw [hw] at hq
    exact reconcileStale_ok h hq.1 hq.2
  | staleMarked ctx now rest =>
    rw [hw] at hq
    refine settle_ok h (fun x hx hxid ho => ?_) (fun n r e => ?_)
    · rcases hq.1 x hx hxid ho with ⟨hm, hns⟩
      exact settles_stale ht hx (ownedBy_iff.mp ho).1 hns hm now
    · injection e with e₁ _
      exact e₁ ▸ hq.2

/-- Every step of a worker keeps the invariant and leaves its stand right. -/
theorem workerStep_ok (h : Inv cfg s (.worker w) s.db) (hlag : Lag s)
    (hq : WorkerOk s.db w (s.worker w)) {action : WorkerAction} {result : Database × Activity}
    (hstep : workerStep cfg w s.db (s.worker w) action = some result) :
    TransactionOk cfg s w result := by
  cases action with
  | next rejection =>
    cases hstep
    exact next_ok h hlag hq rejection
  | sweep =>
    unfold workerStep at hstep
    simp only at hstep
    split at hstep
    · cases hstep
      exact ⟨h, Nat.le_refl _⟩
    · cases hstep
  | heartbeat jobId =>
    cases hstep
    exact heartbeat_ok h hq jobId
  -- A failed heartbeat, its check and an error change where the worker stands, not the tables.
  | heartbeatFails =>
    unfold workerStep at hstep
    simp only at hstep
    split at hstep
    · rename_i hw
      rw [hw] at hq
      cases hstep
      exact ⟨h, hq⟩
    · cases hstep
  | checkHeartbeat =>
    unfold workerStep at hstep
    simp only at hstep
    split at hstep
    · rename_i ctx stage signal finished hw
      rcases Option.map_eq_some_iff.mp hstep with ⟨q', hcheck, rfl⟩
      refine ⟨h, ?_⟩
      cases signal with
      | clear => cases hcheck
      | ownershipLost | cancelRequested | failure =>
        cases hcheck
        trivial
    · cases hstep
  | readFlag =>
    unfold workerStep at hstep
    simp only at hstep
    split at hstep
    · split at hstep
      · cases hstep
        exact ⟨h, trivial⟩
      · cases hstep
    · cases hstep
  | raise failure =>
    unfold workerStep at hstep
    simp only at hstep
    split at hstep
    · cases hstep
      exact ⟨h, trivial⟩
    · split at hstep
      · cases hstep
        exact ⟨h, trivial⟩
      · cases hstep
    · cases hstep
  | crash =>
    cases hstep
    exact ⟨h, trivial⟩

end Steps

end Jobs

end Partha
