import Partha.Jobs.Transactions

/-!
# The Reachable States of the Analysis Jobs

The requests keep the invariant as well, and with them every step of the system.

A request that found a completed snapshot always finds the job that sealed it:
its owner and its configuration are those of the repository. So the branches
of the service that would insert a completed job are not taken, and the
reconciliation that ends a submission writes a row that is running or completed
already. That is why it needs no guard.

## Main definitions

* `Consistent`: The invariant of a state.

## Theorems

* `requestStep_ok`: Every step of a request.
* `consistent_step`: Every step of the system, with what became of the rows.
* `consistent_reachable`: The invariant holds in every reachable state.
-/

namespace Partha

namespace Jobs

open List

section Lookups

variable {cfg : Settings} {s : State} {r : Nat} {db : Database}

variable {matching : AnalysisJob → Bool} {j : AnalysisJob} {scope : Scope} {t : RiSnapshot}

theorem newestJob_some (h : newestJob db matching = some j) : j ∈ db.jobs ∧ matching j = true :=
  mem_filter.mp (argmax_mem h)

theorem newestJob_none (h : newestJob db matching = none) (hj : j ∈ db.jobs) :
    matching j = false := by
  rw [Bool.eq_false_iff]
  intro hm
  have hnil : db.jobs.filter matching = [] := argmax_eq_none.mp h
  have hmem : j ∈ db.jobs.filter matching := mem_filter.mpr ⟨hj, hm⟩
  rw [hnil] at hmem
  cases hmem

theorem completedSnapshot_some (h : completedSnapshot cfg r db scope = some t) :
    t ∈ db.snapshots ∧ t.state = .completed ∧
      t.identity = cfg.identity (.request r) scope.repositoryId scope.revisionValue := by
  have hg := List.find?_some h
  simp only [decide_eq_true_eq] at hg
  exact ⟨mem_of_find?_eq_some h, hg.2, hg.1⟩

theorem completedSnapshot_sealedFor (h : completedSnapshot cfg r db scope = some t) :
    SealedFor db scope t := by
  rcases completedSnapshot_some h with ⟨ht, hstate, hid⟩
  exact ⟨t, ht, rfl, hstate, congrArg SnapshotIdentity.repositoryId hid⟩

theorem scope_found {repositoryId ownerId : Nat}
    (h : findScope cfg repositoryId ownerId = some scope) : scope.Found cfg ∧
      scope.repositoryId = repositoryId ∧ scope.ownerId = ownerId := by
  unfold findScope at h
  split at h
  · rename_i record hrecord
    split at h
    · rename_i howner
      rcases Option.map_eq_some_iff.mp h with ⟨v, hv, rfl⟩
      refine ⟨?_, rfl, rfl⟩
      rw [Scope.Found, hrecord, ← howner, ← hv]
    · cases h
  · cases h

/-- The job that sealed a snapshot of the repository: it has the owner and the
    configuration by which a request looks for it. -/
theorem sealing_job (h : Tables cfg db) (hfound : scope.Found cfg) (hs : SealedFor db scope t) :
    ∃ j ∈ db.jobs,
      j.snapshotId = some t.snapshotId ∧ (j.status = .running ∨ j.status = .completed) ∧
        j.repositoryId = scope.repositoryId ∧ j.ownerId = scope.ownerId ∧
          j.revisionValue = scope.revisionValue ∧ j.configHash = cfg.configHash ∧
            Sealed db t.snapshotId := by
  rcases hs with ⟨u, hu, hid, hstate, hrepo⟩
  rcases h.sealedBy u hu hstate with ⟨j, hj, hpoint, hstatus, _⟩
  rcases h.pointed j hj _ hpoint with ⟨u', hu', huid, hrepo'⟩
  rw [h.snapshot_eq hu' hu huid] at hrepo'
  have hj' : j.repositoryId = scope.repositoryId := hrepo'.symm.trans hrepo
  rcases h.jobScope j hj with ⟨hscope, hconfig⟩
  rw [hj', hfound] at hscope
  simp only [Option.some.injEq, RepositoryRecord.mk.injEq] at hscope
  exact ⟨j, hj, hid ▸ hpoint, hstatus, hj', hscope.1.symm, hscope.2.symm, hconfig,
    u, hu, hid, hstate⟩

theorem reconcileOk_of_pointed (h : Tables cfg db) (hj : j ∈ db.jobs)
    (hpoint : j.snapshotId = some t.snapshotId) (hs : Sealed db t.snapshotId) :
    ReconcileOk db j t where
  isSealed := hs
  wellFormed := h.wellFormed j hj
  snapshotId := hpoint
  status := (h.sealedJob_status hj ⟨_, hpoint, hs⟩).1
  row := ⟨j, hj, rfl, hpoint, fun hc => hc⟩

/-- The job that a lookup by the snapshot finds is the one that sealed it. -/
theorem jobForSnapshot_ok (h : Tables cfg db) (hfound : scope.Found cfg)
    (hs : SealedFor db scope t) :
    ∃ j, jobForSnapshot db scope t.snapshotId = some j ∧ ReconcileOk db j t := by
  rcases sealing_job h hfound hs with ⟨j, hj, hpoint, _, hrepo, howner, _, _, hsealed⟩
  cases hfind : jobForSnapshot db scope t.snapshotId with
  | none =>
    have hnone := newestJob_none hfind hj
    rw [decide_eq_false_iff_not] at hnone
    exact absurd ⟨hrepo, howner, hpoint⟩ hnone
  | some j' =>
    rcases newestJob_some hfind with ⟨hj', hg⟩
    exact ⟨j', rfl, reconcileOk_of_pointed h hj' (of_decide_eq_true hg).2.2 hsealed⟩

/-- So is the effective job of the repository. -/
theorem effectiveJob_ok (h : Tables cfg db) (hfound : scope.Found cfg) (hs : SealedFor db scope t)
    (hfind : effectiveJob cfg db scope = some j) : ReconcileOk db j t := by
  rcases sealing_job h hfound hs with
    ⟨j', hj', hpoint, hstatus, hrepo, howner, hrev, hconfig, hsealed⟩
  rcases newestJob_some hfind with ⟨hj, hg⟩
  rcases of_decide_eq_true hg with ⟨hrepo₁, howner₁, hconfig₁, heffective⟩
  have hscope := (h.jobScope j hj).1
  rw [hrepo₁, hfound] at hscope
  simp only [Option.some.injEq, RepositoryRecord.mk.injEq] at hscope
  have heffective' : j'.status.effective = true := by
    rcases hstatus with e | e
    · rw [e]
      rfl
    · rw [e]
      rfl
  have hidentity : j'.identity = j.identity := by
    simp only [AnalysisJob.identity, hrepo, hrepo₁, hrev, ← hscope.2, hconfig, hconfig₁]
  rw [← h.effective_eq hj' hj heffective' heffective hidentity]
  exact reconcileOk_of_pointed h hj' hpoint hsealed

end Lookups

section Requests

variable {cfg : Settings} {s : State} {r : Nat} {db : Database}

/-- The invariant and the stand after a step of request `r`. -/
def RequestStepOk (cfg : Settings) (s : State) (r : Nat) (result : Database × Request) : Prop :=
  Inv cfg s (.request r) result.1 ∧ RequestOk cfg result.1 result.2

theorem insertQueued_ok (h : Inv cfg s (.request r) s.db) {scope : Scope}
    (hfound : scope.Found cfg) (hinsert : insertJob s.db (queuedJob cfg s.db scope) = some db) :
    Inv cfg s (.request r) db := by
  unfold insertJob at hinsert
  split at hinsert
  · rename_i hindexes
    cases hinsert
    refine inv_insertJob h rfl rfl rfl rfl ?_ ⟨hfound, rfl⟩ hindexes
    exact ⟨⟨fun e => (by cases e), fun e => (by cases e)⟩, ⟨fun e => e, fun e => e⟩,
      fun e => (by cases e), ⟨fun e => (by cases e), fun e => (by cases e)⟩, Nat.zero_le 3,
      fun e => (by cases e), fun _ => Nat.zero_lt_succ 2⟩
  · cases hinsert

variable {copy j : AnalysisJob} {t : RiSnapshot}

/-- The row that is reconciled points at the snapshot, like the copy. -/
theorem ReconcileOk.row_facts (h : Tables cfg db) (hok : ReconcileOk db copy t) (hj : j ∈ db.jobs)
    (hid : j.id = copy.id) :
    j.snapshotId = some t.snapshotId ∧ (j.status = .running ∨ j.status = .completed) ∧
      (copy.status = .completed → j.status = .completed) := by
  rcases hok.row with ⟨j', hj', hid', hpoint, hdone⟩
  rw [← h.job_eq hj hj' (hid.trans hid'.symm)] at hpoint hdone
  exact ⟨hpoint, (h.sealedJob_status hj ⟨_, hpoint, hok.isSealed⟩).1, hdone⟩

theorem reconcile_status (t : RiSnapshot) (now : Nat)
    (hdone : copy.status = .completed → j.status = .completed) :
    (copy.reconcile t now j).status = .completed := by
  show flushed copy.status .completed j.status = .completed
  unfold flushed
  split
  · rename_i hc
    exact hdone hc
  · rfl

theorem reconcile_snapshotId (now : Nat) (hcopy : copy.snapshotId = some t.snapshotId) :
    (copy.reconcile t now j).snapshotId = j.snapshotId := by
  show flushed copy.snapshotId (some t.snapshotId) j.snapshotId = j.snapshotId
  unfold flushed
  rw [if_pos hcopy]

/-- The owner goes: a running copy had one, and a completed row has none. -/
theorem reconcile_worker (t : RiSnapshot) (now : Nat) (hcopy : copy.WellFormed) (hj : j.WellFormed)
    (hstatus : copy.status = .running ∨ copy.status = .completed)
    (hdone : copy.status = .completed → j.status = .completed) :
    (copy.reconcile t now j).workerId = none ∧
      (copy.reconcile t now j).leaseExpiresAt = none := by
  show flushed copy.workerId none j.workerId = none ∧
    flushed copy.leaseExpiresAt none j.leaseExpiresAt = none
  unfold flushed
  rcases hstatus with hrun | hc
  · have hw := hcopy.worker.mp hrun
    have hl := hcopy.lease.mp hw
    rw [if_neg (fun e => by rw [e] at hw; cases hw), if_neg (fun e => by rw [e] at hl; cases hl)]
    exact ⟨rfl, rfl⟩
  · have hnone := hj.worker_none (by rw [hdone hc]; exact fun e => by cases e)
    rw [hnone.1, hnone.2]
    exact ⟨ite_self none, ite_self none⟩

/-- Only a queued row waits. -/
theorem reconcile_backoff (t : RiSnapshot) (now : Nat) (hj : j.WellFormed)
    (hstatus : j.status = .running ∨ j.status = .completed) :
    (copy.reconcile t now j).nextAttemptAt = none := by
  have hnone : j.nextAttemptAt = none := by
    rw [← Option.isNone_iff_eq_none, ← Option.not_isSome, Bool.not_eq_true', Bool.eq_false_iff]
    intro e
    have hq := hj.backoff e
    rcases hstatus with hx | hx
    · rw [hx] at hq
      cases hq
    · rw [hx] at hq
      cases hq
  show flushed copy.nextAttemptAt none j.nextAttemptAt = none
  unfold flushed
  rw [hnone]
  exact ite_self none

theorem reconcile_completedAt (t : RiSnapshot) (now : Nat) (hcopy : copy.WellFormed)
    (hj : j.WellFormed) (hstatus : copy.status = .running ∨ copy.status = .completed)
    (hdone : copy.status = .completed → j.status = .completed) :
    (copy.reconcile t now j).completedAt.isSome = true := by
  show (flushed copy.completedAt (some (t.sealedAt.getD now)) j.completedAt).isSome = true
  unfold flushed
  split
  · rename_i hsame
    -- The copy was dated already, so the row is.
    rcases hstatus with hrun | hc
    · have hd := hcopy.completedAt
      rw [hrun, hsame] at hd
      cases hd.mp rfl
    · exact hj.completedAt.mpr (by rw [hdone hc]; rfl)
  · rfl

/-- The row that a reconciliation writes. Whatever it was before, it was
    running or completed with this snapshot, and is completed with it now. -/
theorem rowOk_reconcile {p : Process} (h : Tables cfg db) (hok : ReconcileOk db copy t)
    (hj : j ∈ db.jobs) (hid : j.id = copy.id) (now : Nat) :
    RowOk s p db j (copy.reconcile t now j) := by
  rcases hok.row_facts h hj hid with ⟨hpoint, hstatus, hdone⟩
  have hwell := h.wellFormed j hj
  have hcompleted := reconcile_status t now hdone
  have hsnap := reconcile_snapshotId now hok.snapshotId (j := j)
  have hworker := reconcile_worker t now hok.wellFormed hwell hok.status hdone
  have hat := reconcile_completedAt t now hok.wellFormed hwell hok.status hdone
  have hrunning : (copy.reconcile t now j).status ≠ .running := by
    rw [hcompleted]
    exact fun e => by cases e
  exact
    { id := rfl
      scope := ⟨rfl, rfl, rfl, rfl⟩
      wellFormed :=
        { worker := by
            rw [hcompleted, hworker.1]
            exact ⟨fun e => (by cases e), fun e => (by cases e)⟩
          lease := by rw [hworker.1, hworker.2]
          backoff := fun e => by
            rw [reconcile_backoff t now hwell hstatus] at e
            cases e
          completedAt := by
            rw [hcompleted, hat]
            exact ⟨fun _ => rfl, fun _ => rfl⟩
          attempts := hwell.attempts
          runningAttempt := fun e => absurd e hrunning
          queuedAttempt := fun e => by
            rw [hcompleted] at e
            cases e }
      foreign := fun w _ ho => absurd (ownedBy_iff.mp ho).1 hrunning
      lease := fun e => absurd e hrunning
      snapshot := .inl hsnap
      standing := fun _ => .inr hcompleted
      completed := fun _ => ⟨_, hsnap.trans hpoint, hok.isSealed⟩
      terminal := fun e => by
        rcases hstatus with e' | e'
        · rw [e'] at e
          cases e
        · exact hcompleted.trans e'.symm
      flag := fun _ => .inr (.inr hcompleted)
      worker := .inr (.inl hworker.1) }

theorem reconcile_ok (h : Inv cfg s (.request r) s.db) (hok : ReconcileOk s.db copy t)
    (hwrite : reconcile s.db copy t = some db) : Inv cfg s (.request r) db := by
  unfold reconcile at hwrite
  simp only at hwrite
  split at hwrite
  · rename_i hindexes
    cases hwrite
    refine inv_updateJobs h
      (fun j hj hg => rowOk_reconcile h.tables hok hj (of_decide_eq_true hg) _)
      hindexes (fun j hj => ?_) h.tables.claimsOld
    split
    · exact h.tables.claims j hj
    · exact h.tables.claims j hj
  · cases hwrite

theorem cancelQueued_ok (h : Inv cfg s (.request r) s.db)
    (hwrite : cancelQueued s.db copy = some db) : Inv cfg s (.request r) db := by
  rcases updateJobs_some hwrite with ⟨_, rfl⟩
  refine inv_update h (fun j hj hg => ?_) (fun _ _ _ => rfl) (fun _ _ _ => rfl)
  have hqueued := (of_decide_eq_true hg).2.2
  have hns : ¬ SealedJob s.db j := h.tables.not_sealed hj
    (by rw [hqueued]; exact fun e => by cases e) (by rw [hqueued]; exact fun e => by cases e)
  exact
    { id := rfl
      scope := ⟨rfl, rfl, rfl, rfl⟩
      wellFormed :=
        { worker := ⟨fun e => (by cases e), fun e => (by cases e)⟩
          lease := ⟨fun e => e, fun e => e⟩
          backoff := fun e => by cases e
          completedAt := ⟨fun _ => rfl, fun _ => rfl⟩
          attempts := (h.tables.wellFormed j hj).attempts
          runningAttempt := fun e => by cases e
          queuedAttempt := fun e => by cases e }
      foreign := fun w _ ho => by cases (ownedBy_iff.mp ho).1
      lease := fun e => by cases e
      snapshot := .inl rfl
      standing := fun hs => absurd hs hns
      completed := fun e => by cases e
      terminal := fun e => by
        rw [hqueued] at e
        cases e
      flag := fun _ => .inr (.inl ⟨rfl, by rw [hqueued]; exact fun e => by cases e⟩)
      worker := .inr (.inl rfl) }

theorem requestCancel_ok (h : Inv cfg s (.request r) s.db)
    (hwrite : requestCancel s.db copy = some db) : Inv cfg s (.request r) db := by
  rcases updateJobs_some hwrite with ⟨_, rfl⟩
  refine inv_update h (fun j hj hg => ?_) (fun _ _ _ => rfl) (fun _ _ _ => rfl)
  have hrun := (of_decide_eq_true hg).2.2
  have hw := h.tables.wellFormed j hj
  exact
    { id := rfl
      scope := ⟨rfl, rfl, rfl, rfl⟩
      wellFormed := ⟨hw.worker, hw.lease, hw.backoff, hw.completedAt, hw.attempts,
        hw.runningAttempt, hw.queuedAttempt⟩
      foreign := fun _ _ ho => ⟨ho, rfl, rfl, rfl⟩
      lease := fun _ => .inl ⟨hrun, rfl, rfl, rfl, rfl, rfl⟩
      snapshot := .inl rfl
      standing := fun _ => .inl hrun
      completed := fun e => by
        have hc : j.status = .completed := e
        rw [hrun] at hc
        cases hc
      terminal := fun _ => rfl
      flag := fun _ => .inl rfl
      worker := .inl rfl }

theorem requestNext_ok (h : Inv cfg s (.request r) s.db) (hq : RequestOk cfg s.db (s.request r))
    (recordSettled : Bool) :
    RequestStepOk cfg s r (requestNext cfg r s.db recordSettled (s.request r)) := by
  have ht := h.tables
  cases hr : s.request r with
  -- The snapshot, and the job that sealed it.
  | submitting scope | asking scope =>
    rw [hr] at hq
    unfold requestNext
    simp only
    split
    · rename_i t hfind
      exact ⟨h, hq, completedSnapshot_sealedFor hfind⟩
    · exact ⟨h, hq⟩
  | submitFound scope t | statusFound scope t =>
    rw [hr] at hq
    rcases jobForSnapshot_ok ht hq.1 hq.2 with ⟨j, hfind, hok⟩
    unfold requestNext
    simp only [hfind]
    exact ⟨h, hok⟩
  -- Without a snapshot the request inserts a job, or reads the one that the index prefers.
  | submitAbsent scope =>
    rw [hr] at hq
    unfold requestNext
    simp only
    split
    · exact ⟨h, trivial⟩
    · exact ⟨h, hq⟩
  | statusAbsent scope => exact ⟨h, trivial⟩
  | insertingQueued scope =>
    rw [hr] at hq
    unfold requestNext
    simp only
    split
    · rename_i db hinsert
      exact ⟨insertQueued_ok h hq hinsert, trivial⟩
    · exact ⟨h, hq⟩
  | queuedConflict scope =>
    rw [hr] at hq
    exact ⟨h, hq, fun t hfind => completedSnapshot_sealedFor hfind⟩
  | queuedConflictRead scope snapshot =>
    rw [hr] at hq
    unfold requestNext
    simp only
    split
    · rename_i t j hfind
      exact ⟨h, effectiveJob_ok ht hq.1 (hq.2 t rfl) hfind⟩
    · exact ⟨h, trivial⟩
    · exact ⟨h, trivial⟩
  -- The writes to a job that was found: its completion, and the two cancellations.
  | reconciling copy t =>
    rw [hr] at hq
    unfold requestNext
    simp only
    split
    · exact ⟨h, trivial⟩
    · split
      · rename_i db hwrite
        exact ⟨reconcile_ok h hq hwrite, trivial⟩
      · exact ⟨h, trivial⟩
  | cancelling copy =>
    unfold requestNext
    simp only
    split
    · split
      · rename_i db hwrite
        exact ⟨cancelQueued_ok h hwrite, trivial⟩
      · exact ⟨h, trivial⟩
    · exact ⟨h, trivial⟩
    · exact ⟨h, trivial⟩
  | cancelMissed jobId =>
    unfold requestNext
    simp only
    split
    · split
      · exact ⟨h, trivial⟩
      · exact ⟨h, trivial⟩
    · exact ⟨h, trivial⟩
  | flagging copy =>
    unfold requestNext
    simp only
    split
    · rename_i db hwrite
      exact ⟨requestCancel_ok h hwrite, trivial⟩
    · exact ⟨h, trivial⟩
  -- The sealing job is always found, so the rest is not reached.
  | statusUnmatched scope t | insertingCompleted scope t | completedConflict scope t
  | completedUnmatched scope t =>
    rw [hr] at hq
    exact hq.elim
  | idle => exact ⟨h, trivial⟩
  | returned job => exact ⟨h, trivial⟩
  | cancelAccepted jobId => exact ⟨h, trivial⟩
  | failed => exact ⟨h, trivial⟩

theorem requestStep_ok (h : Inv cfg s (.request r) s.db) (hq : RequestOk cfg s.db (s.request r))
    {action : RequestAction} {result : Database × Request}
    (hstep : requestStep cfg r s.db (s.request r) action = some result) :
    RequestStepOk cfg s r result := by
  -- a request that begins has at most found its scope
  have hscope : ∀ (f : Scope → Request) repositoryId ownerId,
      (∀ scope : Scope, scope.Found cfg → RequestOk cfg s.db (f scope)) →
      RequestOk cfg s.db ((findScope cfg repositoryId ownerId).elim .failed f) := by
    intro f repositoryId ownerId hf
    cases hfind : findScope cfg repositoryId ownerId with
    | none => trivial
    | some scope => exact hf scope (scope_found hfind).1
  cases action with
  | submit repositoryId ownerId =>
    unfold requestStep at hstep
    simp only at hstep
    split at hstep
    · cases hstep
      exact ⟨h, hscope .submitting repositoryId ownerId (fun _ hf => hf)⟩
    · cases hstep
  | status repositoryId ownerId =>
    unfold requestStep at hstep
    simp only at hstep
    split at hstep
    · cases hstep
      exact ⟨h, hscope .asking repositoryId ownerId (fun _ hf => hf)⟩
    · cases hstep
  | cancel repositoryId ownerId =>
    unfold requestStep at hstep
    simp only at hstep
    split at hstep
    · cases hstep
      refine ⟨h, ?_⟩
      unfold beginCancel
      split
      · split
        · split
          · trivial
          · trivial
        · trivial
      · trivial
    · cases hstep
  | next recordSettled =>
    cases hstep
    exact requestNext_ok h hq recordSettled
  | crash =>
    unfold requestStep at hstep
    simp only at hstep
    split at hstep
    · cases hstep
    · cases hstep
    · cases hstep
      exact ⟨h, trivial⟩

end Requests

section Stands

variable {cfg : Settings} {db : Database} {w : Nat}

/-- A worker that comes to a polled job or to a stale one has just read it. -/
def ArrivesOk (db : Database) (q q' : Activity) : Prop :=
  match q' with
  | .polled _ now => q' = q ∨ now = db.now
  | .stale copy _ _ => q' = q ∨ (copy ∈ db.jobs ∧ copy.status = .running)
  | _ => True

variable {q : Activity}

theorem settle_arrives (db' : Database) (ctx : StageContext) (values : AnalysisJob → AnalysisJob)
    (resume : Resume) : ArrivesOk db q (settle w db' ctx values resume).2 := by
  unfold settle
  cases updateOwned db' ctx.jobId w false values with
  | none => trivial
  | some _ =>
    cases resume with
    | run => trivial
    | sweep _ _ => trivial

theorem cancel_arrives (db' : Database) (ctx : StageContext) (inTry : Bool) (resume : Resume) :
    ArrivesOk db q (cancel w db' ctx inTry resume).2 := by
  unfold cancel
  split
  · trivial
  · split
    · exact settle_arrives _ _ _ _
    · split
      · exact settle_arrives _ _ _ _
      · split
        · exact settle_arrives _ _ _ _
        · trivial
      · exact settle_arrives _ _ _ _

theorem retryOrFail_arrives (ctx : StageContext) (failure : Failure) (now : Nat) :
    ArrivesOk db q (retryOrFail w db ctx failure now).2 := by
  unfold retryOrFail
  split
  · trivial
  · split
    · exact settle_arrives _ _ _ _
    · split
      · exact settle_arrives _ _ _ _
      · split
        · exact settle_arrives _ _ _ _
        · trivial
      · exact settle_arrives _ _ _ _

theorem reconcileStale_arrives (copy : AnalysisJob) (now : Nat) (rest : List Nat) :
    ArrivesOk db q (reconcileStale cfg w db copy now rest).2 := by
  unfold reconcileStale
  split
  · trivial
  · simp only
    split
    · exact cancel_arrives _ _ _ _
    · split
      · exact settle_arrives _ _ _ _
      · split
        · exact settle_arrives _ _ _ _
        · trivial
        · exact settle_arrives _ _ _ _

theorem checkpointOpened_arrives (ctx : StageContext) :
    ArrivesOk db q (checkpointOpened cfg w db ctx).2 := by
  unfold checkpointOpened
  split
  · trivial
  · simp only
    split
    · trivial
    · trivial

theorem checkpoint_arrives (ctx : StageContext) (stage : Stage) :
    ArrivesOk db q (checkpoint cfg w db ctx stage).2 := by
  unfold checkpoint
  split
  · trivial
  · trivial

theorem stageOpenSnapshot_arrives (ctx : StageContext) (signal : Signal) :
    ArrivesOk db q (stageOpenSnapshot cfg w db ctx signal) := by
  unfold stageOpenSnapshot
  split
  · trivial
  · split
    · trivial
    · trivial

theorem stageSeal_arrives (ctx : StageContext) (signal : Signal) (rejection : Option String) :
    ArrivesOk db q (stageSeal w db ctx signal rejection).2 := by
  unfold stageSeal
  split
  · trivial
  · split
    · trivial
    · trivial
    · split
      · trivial
      · simp only
        split
        · trivial
        · trivial

theorem next_arrives (q : Activity) (rejection : Option String) :
    ArrivesOk db q (next cfg w db rejection q).2 := by
  cases q with
  | idle =>
    unfold next
    simp only
    split
    · exact .inr rfl
    · trivial
  | polled candidateId now | claimed jobId | sealMissed ctx | completeMissed ctx
  | cancellationObserved ctx | raised ctx failure | failMissed ctx =>
    unfold next
    simp only
    split
    · trivial
    · trivial
  -- A job is loaded with its attempt, and its stages keep it.
  | ready ctx stage =>
    unfold next
    simp only
    split
    · trivial
    · cases stage with
      | none => trivial
      | some _ => trivial
  | inStage ctx stage signal finished =>
    cases finished with
    | true => trivial
    | false =>
      cases stage with
      | openSnapshot => exact stageOpenSnapshot_arrives ctx signal
      | extract => trivial
      | sealSnapshot => exact stageSeal_arrives ctx signal rejection
  | leaving ctx stage =>
    cases stage with
    | openSnapshot => exact checkpointOpened_arrives ctx
    | extract => exact checkpoint_arrives ctx .extract
    | sealSnapshot => exact checkpoint_arrives ctx .sealSnapshot
  | completing ctx =>
    show ArrivesOk db _ (complete w db ctx).2
    unfold complete
    split
    · trivial
    · trivial
  -- A settlement returns to the poll, or to the rest of the sweep.
  | cancelling ctx inTry resume => exact cancel_arrives db ctx inTry resume
  | cancelMarked ctx inTry resume => exact settle_arrives db ctx _ resume
  | failing ctx failure now => exact retryOrFail_arrives ctx failure now
  | failMarked ctx failure now => exact settle_arrives db ctx _ .run
  | sweeping now ids =>
    cases ids with
    | nil => trivial
    | cons jobId rest =>
      unfold next
      simp only
      split
      · rename_i copy hfound
        have hrun := of_decide_eq_true (Option.filter_eq_some_iff.mp hfound).2
        exact .inr ⟨(mem_of_job (Option.eq_some_of_filter_eq_some hfound)).1, hrun.1⟩
      · trivial
  | stale copy now rest => exact reconcileStale_arrives copy now rest
  | staleMarked ctx now rest => exact settle_arrives db ctx _ (.sweep now rest)

theorem workerStep_arrives {action : WorkerAction} {result : Database × Activity}
    (hstep : workerStep cfg w db q action = some result) : ArrivesOk db q result.2 := by
  have hrefl : ArrivesOk db q q := by
    cases q with
    | polled _ _ => exact .inl rfl
    | stale _ _ _ => exact .inl rfl
    | _ => trivial
  cases action with
  | next rejection =>
    cases hstep
    exact next_arrives q rejection
  -- No other step of a worker arrives where the clock or a job is read.
  | sweep | heartbeatFails =>
    unfold workerStep at hstep
    simp only at hstep
    split at hstep
    · cases hstep
      trivial
    · cases hstep
  | heartbeat jobId =>
    cases hstep
    rcases heartbeat_cases cfg w db jobId q with ⟨q', hsame, hheartbeat⟩
    have harrives : ArrivesOk db q q' := by
      rcases hsame with rfl | ⟨ctx, stage, signal, signal', finished, rfl, rfl⟩
      · exact hrefl
      · trivial
    rcases hheartbeat with ⟨_, heq⟩ | ⟨db', flag, _, heq⟩
    · rw [heq]
      exact harrives
    · rw [heq]
      exact harrives
  | checkHeartbeat =>
    unfold workerStep at hstep
    simp only at hstep
    split at hstep
    · rename_i ctx stage signal finished
      rcases Option.map_eq_some_iff.mp hstep with ⟨q', hcheck, rfl⟩
      cases signal with
      | clear => cases hcheck
      | _ =>
        cases hcheck
        trivial
    · cases hstep
  | readFlag =>
    unfold workerStep at hstep
    simp only at hstep
    split at hstep
    · split at hstep
      · cases hstep
        trivial
      · cases hstep
    · cases hstep
  | raise failure =>
    unfold workerStep at hstep
    simp only at hstep
    split at hstep
    · cases hstep
      trivial
    · split at hstep
      · cases hstep
        trivial
      · cases hstep
    · cases hstep
  | crash =>
    cases hstep
    trivial

end Stands

section Reachable

variable {cfg : Settings} {s s' : State}

/-- The invariant of a state. -/
structure Consistent (cfg : Settings) (s : State) : Prop where
  tables : Tables cfg s.db
  workers : ∀ w, WorkerOk s.db w (s.worker w)
  requests : ∀ r, RequestOk cfg s.db (s.request r)
  lag : Lag s

theorem Consistent.inv (h : Consistent cfg s) (p : Process) : Inv cfg s p s.db where
  tables := h.tables
  workers := fun w _ => h.workers w
  requests := fun r _ => h.requests r
  since := since_refl h.tables
  now := rfl

theorem consistent_initial : Consistent cfg initial where
  tables :=
    { jobIds := nodup_nil
      jobsOld := fun _ hj => absurd hj not_mem_nil
      snapshotIds := nodup_nil
      snapshotsOld := fun _ ht => absurd ht not_mem_nil
      indexes := rfl
      wellFormed := fun _ hj => absurd hj not_mem_nil
      jobScope := fun _ hj => absurd hj not_mem_nil
      snapshotScope := fun _ ht => absurd ht not_mem_nil
      pointed := fun _ hj => absurd hj not_mem_nil
      sealedBy := fun _ ht => absurd ht not_mem_nil
      completedSealed := fun _ hj => absurd hj not_mem_nil
      seals := fun _ he => absurd he not_mem_nil
      claims := fun _ hj => absurd hj not_mem_nil
      claimsOld := fun _ hid => absurd hid not_mem_nil }
  workers := fun _ => trivial
  requests := fun _ => trivial
  lag := fun _ _ _ _ _ _ _ hq => by cases hq

variable {w : Nat}

/-- A worker's step keeps polled and stale rows apart. -/
theorem lag_setWorker (h : Consistent cfg s) {db : Database} {q : Activity}
    (harrives : ArrivesOk s.db (s.worker w) q) : Lag (s.setWorker w db q) := by
  intro u v copy n rest candidateId now hstale hpolled hcopy hwk
  have hstand : ∀ x, (s.setWorker w db q).worker x = if x = w then q else s.worker x := fun _ => rfl
  rw [hstand] at hstale hpolled
  by_cases hu : u = w
  · rw [if_pos hu] at hstale
    by_cases hv : v = w
    · rw [if_pos hv, hstale] at hpolled
      cases hpolled
    · rw [if_neg hv] at hpolled
      rw [hstale] at harrives
      rcases harrives with hsame | ⟨hmem, hrun⟩
      · exact h.lag w v copy n rest candidateId now hsame.symm hpolled hcopy hwk
      · -- A job that a worker has polled is not one that it owns.
        have hok := h.workers v
        rw [hpolled] at hok
        exact absurd (hok.2 copy hmem hcopy (ownedBy_iff.mpr ⟨hrun, hwk⟩)) id
  · rw [if_neg hu] at hstale
    by_cases hv : v = w
    · rw [if_pos hv] at hpolled
      rw [hpolled] at harrives
      rcases harrives with hsame | hnow
      · exact h.lag u w copy n rest candidateId now hstale hsame.symm hcopy (hv ▸ hwk)
      · have hok := h.workers u
        rw [hstale] at hok
        rw [hnow]
        exact hok.1.lapsed
    · rw [if_neg hv] at hpolled
      exact h.lag u v copy n rest candidateId now hstale hpolled hcopy hwk

theorem consistent_tick (h : Consistent cfg s) :
    Consistent cfg { s with db := { s.db with now := s.db.now + 1 } } := by
  refine ⟨⟨h.tables.jobIds, h.tables.jobsOld, h.tables.snapshotIds, h.tables.snapshotsOld,
    h.tables.indexes, h.tables.wellFormed, h.tables.jobScope, h.tables.snapshotScope,
    h.tables.pointed, h.tables.sealedBy, h.tables.completedSealed, h.tables.seals,
    h.tables.claims, h.tables.claimsOld⟩, fun w => ?_, fun r => ?_, h.lag⟩
  · have hframe : WorkerFrame w s.db { s.db with now := s.db.now + 1 } :=
      ⟨fun j hj ho => ⟨j, hj, ho, rfl, rfl, rfl, rfl, rfl, id, id, fun _ _ => id⟩, fun _ => id,
        Nat.le_succ _⟩
    refine workerOk_frame hframe (h.workers w) (fun copy _ _ _ hstale => ?_)
    rcases hstale.lapsed with ⟨t, ht, hlt⟩
    exact ⟨⟨t, ht, Nat.lt_succ_of_lt hlt⟩, hstale.unchanged⟩
  · have hframe : RequestFrame s.db { s.db with now := s.db.now + 1 } :=
      ⟨fun t ht hdone => ⟨t, ht, rfl, hdone, rfl⟩, fun j hj _ => ⟨j, hj, rfl, rfl, id⟩⟩
    exact requestOk_frame hframe (h.requests r)

theorem consistent_setWorker {result : Database × Activity} (hok : TransactionOk cfg s w result)
    (hlag : Lag (s.setWorker w result.1 result.2)) :
    Consistent cfg (s.setWorker w result.1 result.2) := by
  refine ⟨hok.1.tables, fun u => ?_, fun r => hok.1.requests r (fun e => by cases e), hlag⟩
  show WorkerOk result.1 u (if u = w then result.2 else s.worker u)
  by_cases hu : u = w
  · rw [if_pos hu, hu]
    exact hok.2
  · rw [if_neg hu]
    refine hok.1.workers u (fun e => ?_)
    injection e with e
    exact hu e.symm

theorem consistent_setRequest (h : Consistent cfg s) {r : Nat} {result : Database × Request}
    (hok : RequestStepOk cfg s r result) :
    Consistent cfg (s.setRequest r result.1 result.2) := by
  refine ⟨hok.1.tables, fun w => hok.1.workers w (fun e => by cases e), fun u => ?_, h.lag⟩
  show RequestOk cfg result.1 (if u = r then result.2 else s.request u)
  by_cases hu : u = r
  · rw [if_pos hu]
    exact hok.2
  · rw [if_neg hu]
    refine hok.1.requests u (fun e => ?_)
    injection e with e
    exact hu e.symm

/-- Every step keeps the invariant, and does to the rows what `Since` allows. -/
theorem consistent_step (h : Consistent cfg s) {a : Action} (hstep : step cfg s a = some s') :
    Consistent cfg s' ∧ Since s.db s'.db := by
  cases a with
  | tick =>
    cases hstep
    have hsince := since_refl h.tables
    exact ⟨consistent_tick h, hsince.terminal, hsince.cleared,
      fun id hd => ⟨(hsince.doomed id hd).row, (hsince.doomed id hd).unsealed⟩, hsince.seals,
      hsince.taken⟩
  | worker w action =>
    rcases Option.map_eq_some_iff.mp hstep with ⟨result, hresult, rfl⟩
    have hok := workerStep_ok (h.inv (.worker w)) h.lag (h.workers w) hresult
    have hlag : Lag (s.setWorker w result.1 result.2) :=
      lag_setWorker h (workerStep_arrives hresult)
    exact ⟨consistent_setWorker hok hlag, hok.1.since⟩
  | request r action =>
    rcases Option.map_eq_some_iff.mp hstep with ⟨result, hresult, rfl⟩
    have hok := requestStep_ok (h.inv (.request r)) (h.requests r) hresult
    exact ⟨consistent_setRequest h hok, hok.1.since⟩

theorem consistent_reachable (h : (analysis cfg).Reachable s) : Consistent cfg s := by
  refine StepSystem.reachableBy_invariant (I := Consistent cfg) (fun s₀ h₀ => ?_)
    (fun _ _ _ hs _ hstep => (consistent_step hs hstep).1) h
  have h₀' : s₀ = initial := h₀
  rw [h₀']
  exact consistent_initial

end Reachable

end Jobs

end Partha
