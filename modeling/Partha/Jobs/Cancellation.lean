import Partha.Jobs.Ownership

/-!
# Cancellation of a Job

A cancellation that was accepted before the job sealed a snapshot is never
overrun. From then on the row is cancelled, or its flag is set: every statement
that would seal or complete is guarded by the flag, and the transactions that
fail or requeue the job leave it alone. So the flag goes only with the
cancellation itself, whatever falls into the window that `mark_failed` opens.

If the snapshot was sealed first, the job can only end completed with it. Every
exit looks at the snapshot before it writes a status, so the seal decides. The
row may be left running, by a worker that crashed between the seal and the
completion, and then a sweep completes it: from every state there is a run that
does. A sweep takes the expired jobs in order, so it has to get past the others
first, and each of them is settled in at most three steps.

## Main definitions

* `Cancelled`, `Ended`: A job that was cancelled, or completed with a snapshot.
* `NeverOverrun`: What holds of an accepted cancellation in a later state.
* `BoundTo`: What holds of a job that sealed a snapshot.

## Theorems

* `cancellation_holds`: The two halves, for every run.
* `bound_ends`: A sealed job can always still be completed.
-/

namespace Partha

namespace Jobs

section Accepted

variable {cfg : Settings} {r : Nat}

/-- The row that an accepted cancellation leaves. -/
def CancelAccepted (db : Database) (id : Nat) : Prop :=
  ∃ j ∈ db.jobs, j.id = id ∧
    (j.status = .cancelled ∨ j.status = .running ∧ j.cancelRequested = true)

variable {db : Database} {q : Request} {id : Nat}

theorem requestNext_accepted {recordSettled : Bool}
    (h : (requestNext cfg r db recordSettled q).2 = .cancelAccepted id) :
    q = .cancelAccepted id ∨ CancelAccepted (requestNext cfg r db recordSettled q).1 id := by
  cases q with
  -- The two commits that accept a cancellation: on a queued job, and on a running one.
  | cancelling copy =>
    unfold requestNext at h ⊢
    simp only at h ⊢
    split at h
    · split at h
      · rename_i db' hwrite
        injection h with hid
        rcases updateJobs_some hwrite with ⟨⟨j, hj, hg⟩, rfl⟩
        exact .inr ⟨_, Rows.updated_mem hj hg, (of_decide_eq_true hg).1.trans hid, .inl rfl⟩
      · cases h
    · cases h
    · cases h
  | flagging copy =>
    unfold requestNext at h ⊢
    simp only at h ⊢
    split at h
    · rename_i db' hwrite
      injection h with hid
      rcases updateJobs_some hwrite with ⟨⟨j, hj, hg⟩, rfl⟩
      rcases of_decide_eq_true hg with ⟨hjid, _, hrun⟩
      exact .inr ⟨_, Rows.updated_mem hj hg, hjid.trans hid, .inr ⟨hrun, rfl⟩⟩
    · cases h
  | cancelAccepted id' => exact .inl h
  -- No other stand comes to an acceptance.
  | cancelMissed jobId =>
    unfold requestNext at h
    simp only at h
    split at h
    · split at h <;> cases h
    · cases h
  | reconciling copy t =>
    unfold requestNext at h
    simp only at h
    split at h
    · cases h
    · split at h <;> cases h
  | submitting scope | asking scope | submitFound scope t | statusFound scope t
  | statusUnmatched scope t | submitAbsent scope | insertingQueued scope
  | queuedConflictRead scope snapshot | insertingCompleted scope t | completedConflict scope t
  | completedUnmatched scope t =>
    unfold requestNext at h
    simp only at h
    split at h <;> cases h
  | statusAbsent scope | queuedConflict scope | idle | returned job | failed => cases h

theorem elim_not_accepted {scope : Option Scope} {f : Scope → Request}
    (hf : ∀ scope, f scope ≠ .cancelAccepted id) : scope.elim .failed f ≠ .cancelAccepted id := by
  cases scope with
  | none => exact fun e => by cases e
  | some scope => exact hf scope

/-- A request comes to have a cancellation accepted by one of two commits. -/
theorem requestStep_accepted {action : RequestAction} {result : Database × Request}
    (hstep : requestStep cfg r db q action = some result) (h : result.2 = .cancelAccepted id) :
    q = .cancelAccepted id ∨ CancelAccepted result.1 id := by
  cases action with
  -- A submission or a question begins with the scope of its repository.
  | submit repositoryId ownerId | status repositoryId ownerId =>
    unfold requestStep at hstep
    simp only at hstep
    split at hstep
    · rw [← Option.some.inj hstep] at h
      exact absurd h (elim_not_accepted (fun _ e => by cases e))
    · cases hstep
  | cancel repositoryId ownerId =>
    unfold requestStep at hstep
    simp only at hstep
    split at hstep
    · rw [← Option.some.inj hstep] at h
      unfold beginCancel at h
      simp only at h
      split at h
      · split at h
        · split at h
          · cases h
          · cases h
        · cases h
      · cases h
    · cases hstep
  | next recordSettled =>
    rw [← Option.some.inj hstep] at h ⊢
    exact requestNext_accepted h
  | crash =>
    unfold requestStep at hstep
    simp only at hstep
    split at hstep
    · cases hstep
    · cases hstep
    · rw [← Option.some.inj hstep] at h
      cases h

end Accepted

section Runs

variable {cfg : Settings} {s t : State}

/-- Any number of steps of the analysis. -/
def Later (cfg : Settings) (s t : State) : Prop :=
  (analysis cfg).Path (fun _ _ => True) s t

theorem later_invariant {I : State → Prop} (h : Consistent cfg s)
    (hstep : ∀ u a v, Consistent cfg u → I u → step cfg u a = some v → I v) (hs : I s)
    (hp : Later cfg s t) : Consistent cfg t ∧ I t :=
  StepSystem.path_invariant (I := fun u => Consistent cfg u ∧ I u)
    (fun u a v hu _ huv => ⟨(consistent_step hu.1 huv).1, hstep u a v hu.1 hu.2 huv⟩) ⟨h, hs⟩ hp

theorem consistent_later (h : Consistent cfg s) (hp : Later cfg s t) : Consistent cfg t :=
  (later_invariant (I := fun _ => True) h (fun _ _ _ _ _ _ => trivial) trivial hp).1

variable {id : Nat}

theorem doomed_later (h : Consistent cfg s) (hd : Doomed s.db id) (hp : Later cfg s t) :
    Doomed t.db id :=
  (later_invariant (I := fun u => Doomed u.db id) h
    (fun _ _ _ hu hd hstep => (consistent_step hu hstep).2.doomed id hd) hd hp).2

/-- The job was cancelled. -/
def Cancelled (db : Database) (id : Nat) : Prop :=
  ∃ j ∈ db.jobs, j.id = id ∧ j.status = .cancelled

theorem cancelled_later (h : Consistent cfg s) (hc : Cancelled s.db id) (hp : Later cfg s t) :
    Cancelled t.db id := by
  refine (later_invariant (I := fun u => Cancelled u.db id) h (fun u _ v hu hc hstep => ?_) hc hp).2
  rcases hc with ⟨j, hj, hid, hstatus⟩
  rcases (consistent_step hu hstep).2.terminal j hj (by rw [hstatus]; rfl) with
    ⟨j', hj', hid', hstatus'⟩
  exact ⟨j', hj', hid'.trans hid, hstatus'.trans hstatus⟩

theorem seals_later (h : Consistent cfg s) {e : Nat × Nat} (he : e ∈ s.db.seals)
    (hp : Later cfg s t) : e ∈ t.db.seals :=
  (later_invariant (I := fun u => e ∈ u.db.seals) h
    (fun _ _ _ hu he hstep => (consistent_step hu hstep).2.seals e he) he hp).2

/-- The job sealed the snapshot: it points at it, and is running or completed. -/
def BoundTo (db : Database) (id snapshotId : Nat) : Prop :=
  Sealed db snapshotId ∧ ∃ j ∈ db.jobs, j.id = id ∧ j.snapshotId = some snapshotId ∧
    (j.status = .running ∨ j.status = .completed)

theorem Consistent.boundTo (h : Consistent cfg s) {snapshotId : Nat}
    (he : (id, snapshotId) ∈ s.db.seals) : BoundTo s.db id snapshotId := by
  rcases h.tables.seals _ he with ⟨j, hj, hid, hpoint, hs⟩
  exact ⟨hs, j, hj, hid, hpoint, (h.tables.sealedJob_status hj ⟨_, hpoint, hs⟩).1⟩

/-- The flag of a doomed job goes only with its cancellation. -/
theorem doomed_cleared {u : State} (h : Consistent cfg s) (hd : Doomed s.db id) {a : Action}
    (hstep : step cfg s a = some u) {j j' : AnalysisJob} (hj : j ∈ s.db.jobs) (hj' : j' ∈ u.db.jobs)
    (hid : j.id = id) (hid' : j'.id = id) (hflag : j.cancelRequested = true)
    (hclear : j'.cancelRequested = false) : j.status ≠ .cancelled ∧ j'.status = .cancelled := by
  rcases consistent_step h hstep with ⟨hu, hsince⟩
  rcases hsince.cleared j hj hflag with ⟨x, hx, hxid, hone⟩
  rw [hu.tables.job_eq hx hj' (hxid.trans (hid.trans hid'.symm))] at hone
  rcases (hsince.doomed id hd).row with ⟨y, hy, hyid, hnc, _⟩
  rw [hu.tables.job_eq hy hj' (hyid.trans hid'.symm)] at hnc
  rcases hone with e | ⟨hc, hne⟩ | e
  · rw [hclear] at e
    cases e
  · exact ⟨hne, hc⟩
  · exact absurd e hnc

end Runs

section Sweeps

variable {cfg : Settings} {w : Nat} {db db' : Database}

/-- What the sweep of another job leaves alone. -/
structure Spares (id : Nat) (db db' : Database) : Prop where
  row : ∀ j ∈ db.jobs, j.id = id → j ∈ db'.jobs
  seals : db'.seals = db.seals
  now : db'.now = db.now

theorem spares_refl (id : Nat) (db : Database) : Spares id db db :=
  ⟨fun _ hj _ => hj, rfl, rfl⟩

theorem Spares.trans {id : Nat} {db'' : Database} (h : Spares id db db')
    (h' : Spares id db' db'') : Spares id db db'' :=
  ⟨fun j hj hid => h'.row j (h.row j hj hid) hid, h'.seals.trans h.seals, h'.now.trans h.now⟩

variable {guard : AnalysisJob → Bool} {f : AnalysisJob → AnalysisJob} {j : AnalysisJob}
  {jobId now : Nat} {rest : List Nat} {ctx : StageContext}

theorem spares_update {id : Nat} (hguard : ∀ j, guard j = true → j.id ≠ id) :
    Spares id db { db with jobs := Rows.updateWhere guard f db.jobs } := by
  refine ⟨fun j hj hid => Rows.mem_updateWhere.mpr (.inl ⟨hj, ?_⟩), rfl, rfl⟩
  rw [Bool.eq_false_iff]
  exact fun hg => hguard j hg hid

/-- Another job on its way back to the sweep. -/
def Clearing (w id now : Nat) (rest : List Nat) (db : Database) : Activity → Prop
  | .sweeping now' rest' => now' = now ∧ rest' = rest
  | .cancelMarked ctx _ resume => ctx.jobId ≠ id ∧ resume = .sweep now rest ∧
      ∃ j ∈ db.jobs, j.id = ctx.jobId ∧ j.ownedBy w = true
  | .staleMarked ctx now' rest' => ctx.jobId ≠ id ∧ now' = now ∧ rest' = rest ∧
      ∃ j ∈ db.jobs, j.id = ctx.jobId ∧ j.ownedBy w = true
  | _ => False

theorem updateJobs_of_mem (hj : j ∈ db.jobs) (hg : guard j = true) :
    db.updateJobs guard f = some { db with jobs := Rows.updateWhere guard f db.jobs } :=
  if_neg (Rows.rowcount_ne_zero.mpr ⟨j, hj, hg⟩)

theorem updateOwned_of_owned (hj : j ∈ db.jobs) (hid : j.id = jobId) (hown : j.ownedBy w = true) :
    ∃ db', updateOwned db jobId w false f = some db' ∧ f j ∈ db'.jobs ∧
      ∀ id, jobId ≠ id → Spares id db db' := by
  refine ⟨_, updateJobs_of_mem hj ?_, Rows.updated_mem hj ?_, fun id hne =>
    spares_update (fun x hx e => hne ((of_decide_eq_true hx).1.symm.trans e))⟩
  · exact decide_eq_true ⟨hid, hown, fun e => by cases e⟩
  · exact decide_eq_true ⟨hid, hown, fun e => by cases e⟩

/-- An owner that locks its row finds it as it is. -/
theorem updateOwned_lock_of_owned (hj : j ∈ db.jobs) (hid : j.id = jobId)
    (hown : j.ownedBy w = true) : updateOwned db jobId w false id = some db := by
  rcases updateOwned_of_owned hj hid hown (f := id) with ⟨db', hlock, _⟩
  rw [hlock, (updateOwned_lock hlock).1]

theorem settle_clearing {id : Nat} (hne : ctx.jobId ≠ id) (hj : j ∈ db.jobs)
    (hid : j.id = ctx.jobId) (hown : j.ownedBy w = true) (values : AnalysisJob → AnalysisJob) :
    Spares id db (settle w db ctx values (.sweep now rest)).1 ∧
      Clearing w id now rest (settle w db ctx values (.sweep now rest)).1
        (settle w db ctx values (.sweep now rest)).2 := by
  rcases updateOwned_of_owned hj hid hown (f := values) with ⟨db', hupdate, _, hspares⟩
  unfold settle
  rw [hupdate]
  exact ⟨hspares id hne, rfl, rfl⟩

theorem cancel_clearing {id : Nat} (hne : ctx.jobId ≠ id) (hj : j ∈ db.jobs)
    (hid : j.id = ctx.jobId) (hown : j.ownedBy w = true) (inTry : Bool) :
    Spares id db (cancel w db ctx inTry (.sweep now rest)).1 ∧
      Clearing w id now rest (cancel w db ctx inTry (.sweep now rest)).1
        (cancel w db ctx inTry (.sweep now rest)).2 := by
  unfold cancel
  rw [updateOwned_lock_of_owned hj hid hown]
  simp only
  split
  · exact settle_clearing hne hj hid hown _
  · split
    · exact settle_clearing hne hj hid hown _
    · split
      · exact settle_clearing hne hj hid hown _
      · exact ⟨⟨fun _ hx _ => hx, rfl, rfl⟩, hne, rfl, j, hj, hid, hown⟩
    · exact settle_clearing hne hj hid hown _

theorem reconcileStale_clearing {id : Nat} {copy : AnalysisJob} (hne : copy.id ≠ id) :
    Spares id db (reconcileStale cfg w db copy now rest).1 ∧
      Clearing w id now rest (reconcileStale cfg w db copy now rest).1
        (reconcileStale cfg w db copy now rest).2 := by
  unfold reconcileStale
  split
  · exact ⟨spares_refl id db, rfl, rfl⟩
  · rename_i db' hreclaim
    rcases updateJobs_some hreclaim with ⟨⟨j, hj, hg⟩, hdb⟩
    have hspares : Spares id db db' := by
      rw [hdb]
      exact spares_update (fun x hx e => hne ((of_decide_eq_true hx).1.symm.trans e))
    have hmem : j.reclaim w (db.now + cfg.leaseSeconds) ∈ db'.jobs := by
      rw [hdb]
      exact Rows.updated_mem hj hg
    have hjg := of_decide_eq_true hg
    have hown : (j.reclaim w (db.now + cfg.leaseSeconds)).ownedBy w = true :=
      ownedBy_iff.mpr ⟨hjg.2.1, rfl⟩
    have hid : (j.reclaim w (db.now + cfg.leaseSeconds)).id = copy.context.jobId := hjg.1
    have hother : copy.context.jobId ≠ id := hne
    have hthen : ∀ {result : Database × Activity}, Spares id db' result.1 ∧
        Clearing w id now rest result.1 result.2 → Spares id db result.1 ∧
          Clearing w id now rest result.1 result.2 :=
      fun hresult => ⟨hspares.trans hresult.1, hresult.2⟩
    simp only
    split
    · exact hthen (cancel_clearing hother hmem hid hown false)
    · split
      · exact hthen (settle_clearing hother hmem hid hown _)
      · split
        · exact hthen (settle_clearing hother hmem hid hown _)
        · exact hthen ⟨⟨fun _ hx _ => hx, rfl, rfl⟩, hother, rfl, rfl, _, hmem, hid, hown⟩
        · exact hthen (settle_clearing hother hmem hid hown _)

/-- A session finds a completed snapshot as such. -/
theorem snapshot_of_sealed (h : Tables cfg db) {id : Nat} (hs : Sealed db id) :
    ∃ t, db.snapshot id = some t ∧ t.state = .completed := by
  rcases hs with ⟨t, ht, hid, hstate⟩
  cases hfind : db.snapshot id with
  | none =>
    have hnot := List.find?_eq_none.mp hfind t ht
    exact absurd (decide_eq_true hid) hnot
  | some t' =>
    rcases mem_of_snapshot hfind with ⟨ht', hid'⟩
    exact ⟨t', rfl, by rw [h.snapshot_eq ht' ht (hid'.trans hid.symm)]; exact hstate⟩

/-- The job was completed. -/
def Completed (db : Database) (id : Nat) : Prop :=
  ∃ j ∈ db.jobs, j.id = id ∧ j.status = .completed

theorem settle_completes (hj : j ∈ db.jobs) (hid : j.id = ctx.jobId) (hown : j.ownedBy w = true)
    (completedAt : Nat) (resume : Resume) :
    Completed (settle w db ctx (AnalysisJob.completeSealed completedAt) resume).1 ctx.jobId := by
  rcases updateOwned_of_owned hj hid hown (f := AnalysisJob.completeSealed completedAt) with
    ⟨db', hupdate, hmem, _⟩
  unfold settle
  rw [hupdate]
  exact ⟨_, hmem, hid, rfl⟩

/-- A sweep that reclaims a sealed job completes it, cancelled or not. -/
theorem reconcileStale_completes (h : Tables cfg db) (hj : j ∈ db.jobs) (hs : SealedJob db j)
    (hrun : j.status = .running) {l : Nat} (hl : j.leaseExpiresAt = some l) (hlt : l < db.now)
    (now : Nat) (rest : List Nat) : Completed (reconcileStale cfg w db j now rest).1 j.id := by
  rcases hs with ⟨id, hpoint, hsealed⟩
  rcases snapshot_of_sealed h hsealed with ⟨t, hfind, hstate⟩
  unfold reconcileStale
  cases hreclaim : reclaim cfg db w j with
  | none =>
    unfold reclaim at hreclaim
    rw [updateJobs_of_mem hj (decide_eq_true ⟨rfl, hrun, rfl, rfl, l, hl, hlt⟩)] at hreclaim
    cases hreclaim
  | some db' =>
    rcases updateJobs_some hreclaim with ⟨_, hdb⟩
    have hmem : j.reclaim w (db.now + cfg.leaseSeconds) ∈ db'.jobs := by
      rw [hdb]
      exact Rows.updated_mem hj (decide_eq_true ⟨rfl, hrun, rfl, rfl, l, hl, hlt⟩)
    have hown : (j.reclaim w (db.now + cfg.leaseSeconds)).ownedBy w = true :=
      ownedBy_iff.mpr ⟨hrun, rfl⟩
    have hctx : j.context.snapshot db' = some t := by
      unfold StageContext.snapshot AnalysisJob.context
      simp only [hpoint, Option.bind_some]
      rw [hdb]
      exact hfind
    have hid : (j.reclaim w (db.now + cfg.leaseSeconds)).id = j.context.jobId := rfl
    simp only
    split
    · unfold cancel
      rw [updateOwned_lock_of_owned hmem hid hown]
      simp only [hctx, hstate]
      exact settle_completes hmem hid hown _ _
    · simp only [hctx, hstate]
      exact settle_completes hmem hid hown _ _

end Sweeps

section Endings

variable {cfg : Settings} {s : State} {w : Nat}

theorem later_step {a : Action} {t u : State} (hstep : step cfg s a = some t)
    (h : Later cfg t u) : Later cfg s u :=
  Relation.ReflTransGen.head ⟨a, trivial, hstep⟩ h

/-- The next step of worker `w`, with nothing rejected. -/
def State.run (cfg : Settings) (w : Nat) (s : State) : State :=
  s.setWorker w (next cfg w s.db none (s.worker w)).1 (next cfg w s.db none (s.worker w)).2

theorem step_run : step cfg s (.worker w (.next none)) = some (s.run cfg w) :=
  rfl

theorem consistent_run (h : Consistent cfg s) : Consistent cfg (s.run cfg w) :=
  (consistent_step h step_run).1

variable {db : Database} {q : Activity} {id now snapshotId : Nat}

@[simp]
theorem worker_setWorker : (s.setWorker w db q).worker w = q :=
  if_pos rfl

theorem run_stand (cfg : Settings) (w : Nat) (s : State) : (s.run cfg w).db =
    (next cfg w s.db none (s.worker w)).1 ∧
    (s.run cfg w).worker w = (next cfg w s.db none (s.worker w)).2 :=
  ⟨rfl, worker_setWorker⟩

theorem run_of (h : next cfg w s.db none (s.worker w) = (db, q)) :
    (s.run cfg w).db = db ∧ (s.run cfg w).worker w = q := by
  rw [(run_stand cfg w s).1, (run_stand cfg w s).2, h]
  exact ⟨rfl, rfl⟩

/-- A job on its way back to the sweep arrives there. -/
theorem clearing_ends (h : Consistent cfg s) {rest : List Nat}
    (hq : Clearing w id now rest s.db (s.worker w)) : ∃ t, Later cfg s t ∧ Consistent cfg t ∧
      Spares id s.db t.db ∧ t.worker w = .sweeping now rest := by
  have hsettle : ∀ result : Database × Activity,
      (next cfg w s.db none (s.worker w)) = result → Spares id s.db result.1 →
      result.2 = .sweeping now rest → ∃ t, Later cfg s t ∧ Consistent cfg t ∧
        Spares id s.db t.db ∧ t.worker w = .sweeping now rest := by
    rintro _ rfl hspares hstand
    exact ⟨s.run cfg w, later_step step_run Relation.ReflTransGen.refl, consistent_run h, hspares,
      worker_setWorker.trans hstand⟩
  cases hw : s.worker w with
  | sweeping now' rest' =>
    rw [hw] at hq
    rcases hq with ⟨rfl, rfl⟩
    exact ⟨s, Relation.ReflTransGen.refl, h, spares_refl id s.db, hw⟩
  | cancelMarked ctx inTry resume =>
    rw [hw] at hq
    rcases hq with ⟨hne, rfl, j, hj, hid, hown⟩
    rcases updateOwned_of_owned hj hid hown (f := AnalysisJob.cancel s.db.now) with
      ⟨db', hupdate, _, hspares⟩
    refine hsettle (db', .sweeping now rest) ?_ (hspares id hne) rfl
    rw [hw]
    show settle w s.db ctx (AnalysisJob.cancel s.db.now) (.sweep now rest) = _
    unfold settle
    rw [hupdate]
    rfl
  | staleMarked ctx now' rest' =>
    rw [hw] at hq
    rcases hq with ⟨hne, rfl, rfl, j, hj, hid, hown⟩
    rcases updateOwned_of_owned hj hid hown (f := staleValues ctx now') with
      ⟨db', hupdate, _, hspares⟩
    refine hsettle (db', .sweeping now' rest') ?_ (hspares id hne) rfl
    rw [hw]
    show settle w s.db ctx (staleValues ctx now') (.sweep now' rest') = _
    unfold settle
    rw [hupdate]
    rfl
  | _ =>
    rw [hw] at hq
    exact hq.elim

/-- A sweep gets to a sealed job, past all jobs before it. -/
theorem sweep_ends (ids : List Nat) (h : Consistent cfg s) (hw : s.worker w = .sweeping now ids)
    (hmem : id ∈ ids) {j : AnalysisJob} (hj : j ∈ s.db.jobs) (hid : j.id = id)
    (hrun : j.status = .running) {l : Nat} (hl : j.leaseExpiresAt = some l) (hlt : l < now)
    (he : (id, snapshotId) ∈ s.db.seals) : ∃ t, Later cfg s t ∧ Completed t.db id := by
  induction ids generalizing s with
  | nil => cases hmem
  | cons a rest ih =>
    have hnow : now ≤ s.db.now := by
      have hok := h.workers w
      rw [hw] at hok
      exact hok
    have hnext := consistent_run h (w := w)
    by_cases ha : a = id
    · -- The job itself: it is loaded as stale, and the next step completes it.
      have hfind : s.db.job a = some j := by
        cases hfind : s.db.job a with
        | none =>
          have hnot := List.find?_eq_none.mp hfind j hj
          exact absurd (decide_eq_true (hid.trans ha.symm)) hnot
        | some j' =>
          rcases mem_of_job hfind with ⟨hj', hid'⟩
          rw [h.tables.job_eq hj' hj (hid'.trans (ha.trans hid.symm))]
      have hstale : next cfg w s.db none (s.worker w) = (s.db, .stale j now rest) := by
        rw [hw]
        unfold next
        have hg : decide (j.status = .running ∧
            ∃ t ∈ j.leaseExpiresAt, leaseExpired t now = true) = true :=
          decide_eq_true ⟨hrun, l, hl, decide_eq_true hlt⟩
        simp only [hfind, Option.filter, hg, if_true]
      have hs : SealedJob s.db j := by
        rcases h.tables.seals _ he with ⟨x, hx, hxid, hpoint, hsealed⟩
        rw [h.tables.job_eq hx hj (hxid.trans hid.symm)] at hpoint
        exact ⟨_, hpoint, hsealed⟩
      have hdone : Completed (reconcileStale cfg w s.db j now rest).1 j.id :=
        reconcileStale_completes h.tables hj hs hrun hl (Nat.lt_of_lt_of_le hlt hnow) now rest
      rcases run_of hstale with ⟨hdb₁, hw₁⟩
      refine ⟨(s.run cfg w).run cfg w,
        later_step step_run (later_step step_run Relation.ReflTransGen.refl), ?_⟩
      show Completed (next cfg w (s.run cfg w).db none ((s.run cfg w).worker w)).1 id
      rw [hdb₁, hw₁, ← hid]
      exact hdone
    · -- Another job: it is settled, and the sweep goes on with the rest.
      have hrest : id ∈ rest := by
        rcases List.mem_cons.mp hmem with e | hrest
        · exact absurd e.symm ha
        · exact hrest
      have hgo : ∀ t, Later cfg s t → Consistent cfg t → Spares id s.db t.db →
          t.worker w = .sweeping now rest → ∃ u, Later cfg s u ∧ Completed u.db id := by
        intro t hlater ht hspares hstand
        rcases ih ht hstand hrest (hspares.row j hj hid) (hspares.seals ▸ he) with
          ⟨u, hu, hdone⟩
        exact ⟨u, hlater.trans hu, hdone⟩
      cases hfind : (s.db.job a).filter (fun j => j.status = .running ∧
          ∃ t ∈ j.leaseExpiresAt, leaseExpired t now = true) with
      | none =>
        have hstand : next cfg w s.db none (s.worker w) = (s.db, .sweeping now rest) := by
          rw [hw]
          unfold next
          simp only [hfind]
        rcases run_of hstand with ⟨hdb₁, hw₁⟩
        refine hgo (s.run cfg w) (later_step step_run Relation.ReflTransGen.refl) hnext ?_ hw₁
        rw [hdb₁]
        exact spares_refl id s.db
      | some copy =>
        have hstand : next cfg w s.db none (s.worker w) = (s.db, .stale copy now rest) := by
          rw [hw]
          unfold next
          simp only [hfind]
        have hcopy : copy.id ≠ id := by
          rw [(mem_of_job (Option.eq_some_of_filter_eq_some hfind)).2]
          exact ha
        rcases run_of hstand with ⟨hdb₁, hw₁⟩
        have hclear : Spares id s.db (reconcileStale cfg w s.db copy now rest).1 ∧
            Clearing w id now rest (reconcileStale cfg w s.db copy now rest).1
              (reconcileStale cfg w s.db copy now rest).2 := reconcileStale_clearing hcopy
        have hstand₂ : next cfg w (s.run cfg w).db none ((s.run cfg w).worker w) =
            reconcileStale cfg w s.db copy now rest := by
          rw [hdb₁, hw₁]
          rfl
        rcases run_stand cfg w (s.run cfg w) with ⟨hdb₂, hw₂⟩
        rw [hstand₂] at hdb₂ hw₂
        rw [← hdb₂, ← hw₂] at hclear
        rcases clearing_ends (consistent_run hnext) hclear.2 with
          ⟨t, hlater, ht, hspares, harrived⟩
        exact hgo t (later_step step_run (later_step step_run hlater)) ht
          (hclear.1.trans hspares) harrived

theorem later_ticks (n : Nat) : Later cfg s { s with db := { s.db with now := s.db.now + n } } := by
  induction n with
  | zero => exact Relation.ReflTransGen.refl
  | succ n ih => exact Relation.ReflTransGen.tail ih ⟨.tick, trivial, rfl⟩

/-- Whoever has left a sealed job running, a sweep can complete it. -/
theorem bound_ends (h : Consistent cfg s) (he : (id, snapshotId) ∈ s.db.seals) :
    ∃ t, Later cfg s t ∧ Completed t.db id := by
  rcases h.boundTo he with ⟨_, j, hj, hid, _, hrun | hdone⟩
  · have hwell := h.tables.wellFormed j hj
    rcases Option.isSome_iff_exists.mp (hwell.lease.mp (hwell.worker.mp hrun)) with ⟨l, hl⟩
    -- Worker `0` begins anew, and sweeps once the lease has lapsed.
    have hcrash : step cfg s (.worker 0 .crash) = some (s.setWorker 0 s.db .idle) := rfl
    have hwait : Later cfg s
        { s.setWorker 0 s.db .idle with db := { s.db with now := s.db.now + (l + 1) } } :=
      later_step hcrash (later_ticks (l + 1))
    have hsweep : step cfg
        { s.setWorker 0 s.db .idle with db := { s.db with now := s.db.now + (l + 1) } }
        (.worker 0 .sweep) = some ((s.setWorker 0 s.db .idle).setWorker 0
          { s.db with now := s.db.now + (l + 1) }
          (.sweeping (s.db.now + (l + 1)) (expiredJobIds
            { s.db with now := s.db.now + (l + 1) } (s.db.now + (l + 1))))) := rfl
    have hc := (consistent_step (consistent_later h hwait) hsweep).1
    have hlt : l < s.db.now + (l + 1) := by omega
    have hmem : id ∈ expiredJobIds { s.db with now := s.db.now + (l + 1) }
        (s.db.now + (l + 1)) := by
      unfold expiredJobIds
      refine List.mem_map.mpr ⟨j, List.mem_mergeSort.mpr (List.mem_filter.mpr ⟨hj, ?_⟩), hid⟩
      exact decide_eq_true ⟨hrun, l, hl, hlt⟩
    rcases sweep_ends _ hc worker_setWorker hmem hj hid hrun hl hlt he with ⟨t, ht, hdone⟩
    exact ⟨t, hwait.trans (later_step hsweep ht), hdone⟩
  · exact ⟨s, Relation.ReflTransGen.refl, j, hj, hid, hdone⟩

end Endings

section Cancellation

variable {cfg : Settings} {s s₁ : State}

/-- An accepted cancellation in state `t`: nothing was sealed or completed, and
    the flag goes only with the cancellation. -/
structure NeverOverrun (cfg : Settings) (t : State) (id : Nat) : Prop where
  unsealed : ∀ e ∈ t.db.seals, e.1 ≠ id
  row : ∃ j ∈ t.db.jobs, j.id = id ∧ ¬ SealedJob t.db j ∧ j.status ≠ .completed ∧
    (j.cancelRequested = true ∨ j.status = .cancelled)
  cleared : ∀ a u, step cfg t a = some u → ∀ j ∈ t.db.jobs, ∀ j' ∈ u.db.jobs, j.id = id →
    j'.id = id → j.cancelRequested = true → j'.cancelRequested = false →
      j.status ≠ .cancelled ∧ j'.status = .cancelled
  absorbing : Cancelled t.db id → ∀ u, Later cfg t u → Cancelled u.db id

variable {id : Nat}

theorem Doomed.neverOverrun (h : Consistent cfg s) (hd : Doomed s.db id) :
    NeverOverrun cfg s id := by
  refine ⟨hd.unsealed, ?_, fun a u hstep j hj j' hj' hid hid' => ?_,
    fun hc u hu => cancelled_later h hc hu⟩
  · rcases hd.row with ⟨j, hj, hid, hne, hstatus⟩
    refine ⟨j, hj, hid, fun hs => ?_, hne, hstatus⟩
    rcases (h.tables.sealedJob_status hj hs).2 with ⟨snapshotId, _, he⟩
    exact hd.unsealed _ he hid
  · exact doomed_cleared h hd hstep hj hj' hid hid'

theorem CancelAccepted.doomed (h : Consistent cfg s) (ha : CancelAccepted s.db id)
    (hns : ∀ j ∈ s.db.jobs, j.id = id → ¬ SealedJob s.db j) : Doomed s.db id := by
  rcases ha with ⟨j, hj, hid, hstatus⟩
  refine ⟨⟨j, hj, hid, ?_, ?_⟩, fun e he heid => ?_⟩
  · rcases hstatus with e | ⟨e, _⟩
    · rw [e]
      exact fun e => by cases e
    · rw [e]
      exact fun e => by cases e
  · rcases hstatus with e | ⟨_, hflag⟩
    · exact .inr e
    · exact .inl hflag
  · rcases h.tables.seals e he with ⟨x, hx, hxid, hpoint, hs⟩
    exact hns x hx (hxid.trans heid) ⟨_, hpoint, hs⟩

/-- When a request has its cancellation of job `id` accepted, either nothing is
    sealed for the job and nothing will be, or the job ends completed. -/
theorem cancellation_holds (h : (analysis cfg).Reachable s) {r : Nat} {a : RequestAction}
    (hstep : step cfg s (.request r a) = some s₁) {id : Nat}
    (hnew : s.request r ≠ .cancelAccepted id) (haccepted : s₁.request r = .cancelAccepted id) :
    CancelAccepted s₁.db id ∧
      ((∀ j ∈ s₁.db.jobs, j.id = id → ¬ SealedJob s₁.db j) →
        ∀ t, Later cfg s₁ t → NeverOverrun cfg t id) ∧
      ∀ j ∈ s₁.db.jobs, j.id = id → ∀ snapshotId, j.snapshotId = some snapshotId →
        Sealed s₁.db snapshotId → ∀ t, Later cfg s₁ t →
          BoundTo t.db id snapshotId ∧ ∃ u, Later cfg t u ∧ Completed u.db id := by
  have hs₁ := (consistent_step (consistent_reachable h) hstep).1
  have ha : CancelAccepted s₁.db id := by
    rcases Option.map_eq_some_iff.mp hstep with ⟨result, hresult, rfl⟩
    have hq : result.2 = .cancelAccepted id := (if_pos rfl).symm.trans haccepted
    rcases requestStep_accepted hresult hq with e | ha
    · exact absurd e hnew
    · exact ha
  refine ⟨ha, fun hns t ht => ?_, fun j hj hid snapshotId hpoint hs t ht => ?_⟩
  · exact (doomed_later hs₁ (ha.doomed hs₁ hns) ht).neverOverrun (consistent_later hs₁ ht)
  · rcases (hs₁.tables.sealedJob_status hj ⟨_, hpoint, hs⟩).2 with ⟨snapshotId', hpoint', he⟩
    rw [hpoint, Option.some.injEq] at hpoint'
    rw [← hpoint', hid] at he
    have he' := seals_later hs₁ he ht
    have ht' := consistent_later hs₁ ht
    exact ⟨ht'.boundTo he', bound_ends ht' he'⟩

/-- Worker `0` has claimed the job, and request `1` is about to set its flag. -/
def cancellation : List Action :=
  submission 0 ++ List.replicate 3 (.worker 0 (.next none)) ++
    [.request 1 (.cancel 1 7), .request 1 (.next true)]

theorem cancellation_holds_running : ∃ s s₁, (analysis oneRepository).exec initial cancellation =
      some s ∧ step oneRepository s (.request 1 (.next true)) = some s₁ ∧
        s₁.request 1 = .cancelAccepted 0 ∧
          ∀ t, Later oneRepository s₁ t → NeverOverrun oneRepository t 0 := by
  have hrun : ((analysis oneRepository).exec initial cancellation).bind (fun s =>
      (step oneRepository s (.request 1 (.next true))).map (fun s₁ =>
        (decide (s.request 1 = .cancelAccepted 0), s₁.request 1, s₁.db.snapshots))) =
      some (false, .cancelAccepted 0, []) := by decide +kernel
  rcases Option.bind_eq_some_iff.mp hrun with ⟨s, hs, hmap⟩
  rcases Option.map_eq_some_iff.mp hmap with ⟨s₁, hstep, hfacts⟩
  simp only [Prod.mk.injEq, decide_eq_false_iff_not] at hfacts
  rcases hfacts with ⟨hnew, haccepted, hnone⟩
  refine ⟨s, s₁, hs, hstep, haccepted, ?_⟩
  refine (cancellation_holds (StepSystem.reachable_of_exec rfl hs) hstep hnew haccepted).2.1 ?_
  rintro j _ _ ⟨_, _, t, ht, _⟩
  rw [hnone] at ht
  cases ht

end Cancellation

end Jobs

end Partha
