import Partha.Jobs.Cancellation

/-!
# The Answer of a Submission

A job that a submission returns answers it if it is still to run, or if it is
completed with a snapshot of the whole semantic identity.

The unique index over the jobs knows three of the five components of that
identity. A submission that finds no snapshot of its own producer set and no
active job inserts one, and the index refuses it while a job stands completed
that another build has run. `_insert_queued_job` then looks for the effective
job and returns it as it is. So the answer is right exactly as long as no job
was completed with a snapshot of another producer set.

## Main definitions

* `Answers`: What the returned job has to be.
* `Outdated`: A job was completed with a snapshot of another producer set.

## Theorems

* `submit_answers`: When a submission is answered.
* `submit_outdated`: An older build completes the job, and a newer one is given
  its snapshot.
-/

namespace Partha

namespace Jobs

open List

section Submission

variable {cfg : Settings} {s : State} {db : Database} {r : Nat}

/-- The job is queued or running, or it is completed with a completed snapshot
    of the whole identity. -/
def Answers (cfg : Settings) (r : Nat) (db : Database) (scope : Scope) (j : AnalysisJob) : Prop :=
  j.status = .queued ∨ j.status = .running ∨ (j.status = .completed ∧ ∃ t ∈ db.snapshots,
    j.snapshotId = some t.snapshotId ∧ t.state = .completed ∧
      t.identity = cfg.identity (.request r) scope.repositoryId scope.revisionValue)

instance decidableAnswers (scope : Scope) (j : AnalysisJob) :
    Decidable (Answers cfg r db scope j) :=
  inferInstanceAs (Decidable (_ ∨ _ ∨ (_ ∧ _)))

/-- A job of the repository was completed with a snapshot of a producer set
    that is not the one of the request. -/
def Outdated (cfg : Settings) (r : Nat) (db : Database) (scope : Scope) : Prop :=
  ∃ j ∈ db.jobs, j.identity = ⟨scope.repositoryId, scope.revisionValue, cfg.configHash⟩ ∧
    j.status = .completed ∧ ∃ t ∈ db.snapshots, j.snapshotId = some t.snapshotId ∧
      t.producerSetHash ≠ cfg.producerSet (.request r)

variable {scope : Scope} {j : AnalysisJob} {t : RiSnapshot} {recordSettled : Bool}

/-- A job of the scope has its identity. -/
theorem identity_of_scope (h : Tables cfg db) (hfound : scope.Found cfg) (hj : j ∈ db.jobs)
    (hrepo : j.repositoryId = scope.repositoryId) :
    j.ownerId = scope.ownerId ∧
      j.identity = ⟨scope.repositoryId, scope.revisionValue, cfg.configHash⟩ := by
  rcases h.jobScope j hj with ⟨hscope, hconfig⟩
  rw [hrepo, hfound] at hscope
  simp only [Option.some.injEq, RepositoryRecord.mk.injEq] at hscope
  refine ⟨hscope.1.symm, ?_⟩
  simp only [AnalysisJob.identity, hrepo, ← hscope.2, hconfig]

/-- While another job of the identity is active, none is completed. -/
theorem not_outdated_of_active (h : Tables cfg db) (hfound : scope.Found cfg) (hj : j ∈ db.jobs)
    (hrepo : j.repositoryId = scope.repositoryId)
    (hactive : j.status = .queued ∨ j.status = .running) : ¬ Outdated cfg r db scope := by
  rintro ⟨j', hj', hid', hdone, _⟩
  have hid := (identity_of_scope h hfound hj hrepo).2
  have he : j.status.effective = true := by
    rcases hactive with e | e
    · rw [e]
      rfl
    · rw [e]
      rfl
  have hsame := h.effective_eq hj hj' he (by rw [hdone]; rfl) (hid.trans hid'.symm)
  rw [hsame, hdone] at hactive
  rcases hactive with e | e
  · cases e
  · cases e

/-- A snapshot of a job in scope has the identity of the request, except that
    another build may have produced it. -/
theorem identity_of_snapshot (h : Tables cfg db) (hfound : scope.Found cfg) (ht : t ∈ db.snapshots)
    (hrepo : t.repositoryId = scope.repositoryId) :
    t.identity = cfg.identity (.request r) scope.repositoryId scope.revisionValue ↔
      t.producerSetHash = cfg.producerSet (.request r) := by
  rcases h.snapshotScope t ht with ⟨hrev, hconfig, hschema⟩
  rw [hrepo, Settings.revision, hfound] at hrev
  have hrev' : scope.revisionValue = t.revisionValue := Option.some.inj hrev
  simp [RiSnapshot.identity, Settings.identity, hrepo, hrev', hconfig, hschema]

/-- The index refuses a queued job only for an effective one of the repository. -/
theorem insertQueued_none (h : Tables cfg db)
    (hinsert : insertJob db (queuedJob cfg db scope) = none) :
    ∃ j ∈ db.jobs, j.repositoryId = scope.repositoryId ∧ j.status.effective = true := by
  unfold insertJob at hinsert
  split at hinsert
  · cases hinsert
  · rename_i hindexes
    by_contra hno
    refine hindexes (indexesHold_iff.mpr ⟨?_, ?_⟩)
    · rw [filterMap_append]
      show (db.jobs.filterMap (fun j : AnalysisJob => j.snapshotId) ++ []).Nodup
      rw [append_nil]
      exact (indexesHold_iff.mp h.indexes).1
    · rw [filter_append, map_append]
      refine nodup_append.mpr ⟨(indexesHold_iff.mp h.indexes).2, nodup_singleton _,
        fun x hx y hy => ?_⟩
      rcases mem_map.mp hx with ⟨j, hj, rfl⟩
      rcases mem_filter.mp hj with ⟨hmem, heffective⟩
      rw [mem_singleton.mp hy]
      intro e
      exact hno ⟨j, hmem, congrArg JobIdentity.repositoryId e, heffective⟩

/-- The reconciliation of a sealed job is never refused, and returns the job
    completed with its snapshot. -/
theorem reconcile_some (h : Consistent cfg s) {copy : AnalysisJob} (hok : ReconcileOk s.db copy t) :
    ∃ db j, reconcile s.db copy t = some db ∧
      db.snapshots = s.db.snapshots ∧ db.job copy.id = some j ∧ j.status = .completed ∧
        j.snapshotId = some t.snapshotId := by
  have ht := h.tables
  have hrow : ∀ j ∈ s.db.jobs, decide (j.id = copy.id) = true →
      RowOk s (.request 0) s.db j (copy.reconcile t s.db.now j) := fun j hj hg =>
    rowOk_reconcile ht hok hj (of_decide_eq_true hg) _
  have hindexes := indexes_updateJobs ht hrow
    (fun j _ _ => reconcile_snapshotId s.db.now hok.snapshotId)
  have hwrite : reconcile s.db copy t = some { s.db with
      jobs := Rows.updateWhere (fun j => j.id = copy.id) (copy.reconcile t s.db.now) s.db.jobs } :=
    if_pos hindexes
  have hids := (reconcile_ok (h.inv (.request 0)) hok hwrite).tables
  rcases hok.row with ⟨j, hj, hid, _⟩
  rcases hok.row_facts ht hj hid with ⟨hpoint, _, hdone⟩
  have hmem : copy.reconcile t s.db.now j ∈
      Rows.updateWhere (fun j => j.id = copy.id) (copy.reconcile t s.db.now) s.db.jobs :=
    Rows.updated_mem hj (decide_eq_true hid)
  refine ⟨_, copy.reconcile t s.db.now j, hwrite, rfl, ?_, reconcile_status t _ hdone,
    (reconcile_snapshotId _ hok.snapshotId).trans hpoint⟩
  unfold Database.job
  cases hfind : List.find? (fun j => decide (j.id = copy.id))
      (Rows.updateWhere (fun j => j.id = copy.id) (copy.reconcile t s.db.now) s.db.jobs) with
  | none =>
    have hg : decide ((copy.reconcile t s.db.now j).id = copy.id) = true := decide_eq_true hid
    exact absurd hg (List.find?_eq_none.mp hfind _ hmem)
  | some j' =>
    have hg := List.find?_some hfind
    have hid' := of_decide_eq_true hg
    rw [hids.job_eq (mem_of_find?_eq_some hfind) hmem (hid'.trans hid.symm)]

/-- One more statement of a submission that runs alone. -/
theorem alone_step {p p' : Database × Request} (n : Nat)
    (h : requestNext cfg r p.1 recordSettled p.2 = p') :
    (fun p => requestNext cfg r p.1 recordSettled p.2)^[n + 1] p =
      (fun p => requestNext cfg r p.1 recordSettled p.2)^[n] p' := by
  rw [Function.iterate_succ_apply, h]

theorem alone_returned (n : Nat) (job : Option AnalysisJob) :
    (fun p => requestNext cfg r p.1 recordSettled p.2)^[n] (db, .returned job) =
      (db, .returned job) := by
  induction n with
  | zero => rfl
  | succ n ih => rw [alone_step n rfl]; exact ih

/-- What a submission that runs alone comes to. -/
structure Submitted (cfg : Settings) (r : Nat) (s : State) (scope : Scope)
    (p : Database × Request) : Prop where
  returned : ∃ j, p.2 = .returned (some j) ∧
    (Answers cfg r p.1 scope j ↔ ¬ Outdated cfg r s.db scope)

/-- A snapshot of the whole identity is there: its job is returned. -/
theorem submitted_completed (h : Consistent cfg s) (hfound : scope.Found cfg)
    (hfind : completedSnapshot cfg r s.db scope = some t) :
    Submitted cfg r s scope ((fun p => requestNext cfg r p.1 recordSettled p.2)^[6]
      (s.db, .submitting scope)) := by
  have ht := h.tables
  rcases completedSnapshot_some hfind with ⟨hmem, hstate, hidentity⟩
  have hfor := completedSnapshot_sealedFor hfind
  rcases jobForSnapshot_ok ht hfound hfor with ⟨j, hjob, hok⟩
  -- The job that sealed it is the only effective one, and its producer set is ours.
  have hcurrent : ¬ Outdated cfg r s.db scope := by
    rintro ⟨j', hj', hid', hdone, t', ht', hpoint', hproducer⟩
    rcases sealing_job ht hfound hfor with ⟨x, hx, hpoint, hstatus, hrepo, _⟩
    have he : x.status.effective = true := by
      rcases hstatus with e | e
      · rw [e]
        rfl
      · rw [e]
        rfl
    have hsame := ht.effective_eq hx hj' he (by rw [hdone]; rfl)
      ((identity_of_scope ht hfound hx hrepo).2.trans hid'.symm)
    rw [← hsame, hpoint, Option.some.injEq] at hpoint'
    rw [ht.snapshot_eq ht' hmem hpoint'.symm] at hproducer
    exact hproducer (congrArg SnapshotIdentity.producerSetHash hidentity)
  have hanswer : ∀ d : Database, d.snapshots = s.db.snapshots → ∀ x : AnalysisJob,
      x.status = .completed → x.snapshotId = some t.snapshotId →
        (Answers cfg r d scope x ↔ ¬ Outdated cfg r s.db scope) := fun d hd x hx hpoint =>
    ⟨fun _ => hcurrent, fun _ => .inr (.inr ⟨hx, t, hd ▸ hmem, hpoint, hstate, hidentity⟩)⟩
  have hfirst : requestNext cfg r s.db recordSettled (.submitting scope) =
      (s.db, .submitFound scope t) := by
    unfold requestNext
    simp only [hfind]
  have hsecond : requestNext cfg r s.db recordSettled (.submitFound scope t) =
      (s.db, .reconciling j t) := by
    unfold requestNext
    simp only [hjob]
  rw [alone_step 5 hfirst, alone_step 4 hsecond]
  by_cases hsettled : (j.settled t && recordSettled) = true
  · have hthird : requestNext cfg r s.db recordSettled (.reconciling j t) =
        (s.db, .returned (some j)) := by
      unfold requestNext
      simp [hsettled]
    rw [alone_step 3 hthird, alone_returned]
    rw [Bool.and_eq_true] at hsettled
    rcases of_decide_eq_true hsettled.1 with ⟨hdone, _, _, hpoint, _⟩
    exact ⟨j, rfl, hanswer s.db rfl j hdone hpoint⟩
  · rcases reconcile_some h hok with ⟨db, x, hwrite, hsnaps, hx, hdone, hpoint⟩
    have hthird : requestNext cfg r s.db recordSettled (.reconciling j t) =
        (db, .returned (some x)) := by
      unfold requestNext
      simp only [if_neg hsettled, hwrite, hx]
    rw [alone_step 3 hthird, alone_returned]
    exact ⟨x, rfl, hanswer db hsnaps x hdone hpoint⟩

/-- An active job is returned as it is. -/
theorem submitted_active (h : Consistent cfg s) (hfound : scope.Found cfg)
    (hfind : completedSnapshot cfg r s.db scope = none) (hjob : activeJob cfg s.db scope = some j) :
    Submitted cfg r s scope ((fun p => requestNext cfg r p.1 recordSettled p.2)^[6]
      (s.db, .submitting scope)) := by
  have hfirst : requestNext cfg r s.db recordSettled (.submitting scope) =
      (s.db, .submitAbsent scope) := by
    unfold requestNext
    simp only [hfind]
  have hsecond : requestNext cfg r s.db recordSettled (.submitAbsent scope) =
      (s.db, .returned (some j)) := by
    unfold requestNext
    simp only [hjob]
  rw [alone_step 5 hfirst, alone_step 4 hsecond, alone_returned]
  rcases newestJob_some hjob with ⟨hj, hg⟩
  rcases of_decide_eq_true hg with ⟨hrepo, _, _, hactive⟩
  refine ⟨j, rfl, fun _ => not_outdated_of_active h.tables hfound hj hrepo hactive, fun _ => ?_⟩
  rcases hactive with e | e
  · exact .inl e
  · exact .inr (.inl e)

/-- Nothing is active: a job is queued, unless the index refuses it. It does so
    for a completed job, which then has the snapshot of another producer set. -/
theorem submitted_absent (h : Consistent cfg s) (hfound : scope.Found cfg)
    (hfind : completedSnapshot cfg r s.db scope = none) (hnone : activeJob cfg s.db scope = none) :
    Submitted cfg r s scope ((fun p => requestNext cfg r p.1 recordSettled p.2)^[6]
      (s.db, .submitting scope)) := by
  have ht := h.tables
  -- Neither a snapshot nor an active job is found, so a job is inserted.
  have hfirst : requestNext cfg r s.db recordSettled (.submitting scope) =
      (s.db, .submitAbsent scope) := by
    unfold requestNext
    simp only [hfind]
  have hsecond : requestNext cfg r s.db recordSettled (.submitAbsent scope) =
      (s.db, .insertingQueued scope) := by
    unfold requestNext
    simp only [hnone]
  rw [alone_step 5 hfirst, alone_step 4 hsecond]
  cases hinsert : insertJob s.db (queuedJob cfg s.db scope) with
  | some db =>
    have hthird : requestNext cfg r s.db recordSettled (.insertingQueued scope) =
        (db, .returned (some (queuedJob cfg s.db scope))) := by
      unfold requestNext
      simp only [hinsert]
    rw [alone_step 3 hthird, alone_returned]
    refine ⟨_, rfl, fun _ => ?_, fun _ => .inl rfl⟩
    -- The index has let the new job in, so no other is effective.
    rintro ⟨j, hj, hid, hdone, _⟩
    have hok := (insertQueued_ok (h.inv (.request r)) hfound hinsert).tables
    unfold insertJob at hinsert
    split at hinsert
    · rw [← Option.some.inj hinsert] at hok
      have hold : j ∈ s.db.jobs ++ [queuedJob cfg s.db scope] := mem_append_left _ hj
      have hnew : queuedJob cfg s.db scope ∈ s.db.jobs ++ [queuedJob cfg s.db scope] :=
        mem_append_right _ (mem_singleton.mpr rfl)
      have hsame := hok.effective_eq hold hnew (by rw [hdone]; rfl) rfl hid
      rw [hsame] at hdone
      cases hdone
    · cases hinsert
  | none =>
    have hthird : requestNext cfg r s.db recordSettled (.insertingQueued scope) =
        (s.db, .queuedConflict scope) := by
      unfold requestNext
      simp only [hinsert]
    have hfourth : requestNext cfg r s.db recordSettled (.queuedConflict scope) =
        (s.db, .queuedConflictRead scope none) := by
      unfold requestNext
      simp only [hfind]
    -- The index refuses it for an effective job, which the request then finds.
    rcases insertQueued_none ht hinsert with ⟨x, hx, hxrepo, hxe⟩
    have hxscope := identity_of_scope ht hfound hx hxrepo
    cases hjob : effectiveJob cfg s.db scope with
    | none =>
      have hnot := newestJob_none hjob hx
      rw [decide_eq_false_iff_not] at hnot
      exact absurd ⟨hxrepo, hxscope.1, (ht.jobScope x hx).2, hxe⟩ hnot
    | some j =>
      have hfifth : requestNext cfg r s.db recordSettled (.queuedConflictRead scope none) =
          (s.db, .returned (some j)) := by
        unfold requestNext
        simp only [hjob]
      rw [alone_step 3 hthird, alone_step 2 hfourth, alone_step 1 hfifth, alone_returned]
      rcases newestJob_some hjob with ⟨hj, hg⟩
      rcases of_decide_eq_true hg with ⟨hrepo, howner, hconfig, heffective⟩
      have hnotactive := newestJob_none hnone hj
      rw [decide_eq_false_iff_not] at hnotactive
      -- That job is not active, so it is completed, and its snapshot is of another producer set.
      have hdone : j.status = .completed := by
        cases hstatus : j.status with
        | completed => rfl
        | queued => exact absurd ⟨hrepo, howner, hconfig, .inl hstatus⟩ hnotactive
        | running => exact absurd ⟨hrepo, howner, hconfig, .inr hstatus⟩ hnotactive
        | failed | cancelled =>
          rw [hstatus] at heffective
          cases heffective
      rcases ht.completedSealed j hj hdone with ⟨id, hpoint, t, htm, htid, hstate⟩
      rcases ht.pointed j hj id hpoint with ⟨t', ht', htid', htrepo⟩
      rw [ht.snapshot_eq ht' htm (htid'.trans htid.symm)] at htrepo
      have hidentity := identity_of_snapshot ht hfound htm (htrepo.trans hrepo) (r := r)
      have hforeign : t.producerSetHash ≠ cfg.producerSet (.request r) := by
        intro e
        have hnot := List.find?_eq_none.mp hfind t htm
        exact hnot (decide_eq_true ⟨hidentity.mpr e, hstate⟩)
      have hout : Outdated cfg r s.db scope :=
        ⟨j, hj, (identity_of_scope ht hfound hj hrepo).2, hdone, t, htm, htid ▸ hpoint, hforeign⟩
      refine ⟨j, rfl, fun ha => ?_, fun hnot => absurd hout hnot⟩
      rcases ha with e | e | ⟨_, u, hu, hupoint, _, huidentity⟩
      · rw [hdone] at e
        cases e
      · rw [hdone] at e
        cases e
      · rw [hpoint, Option.some.injEq] at hupoint
        rw [ht.snapshot_eq hu htm (hupoint.symm.trans htid.symm)] at huidentity
        exact absurd (hidentity.mp huidentity) hforeign

/-- A submission that runs alone returns a job, and the job is its answer
    exactly when no job was completed with a snapshot of another producer set. -/
theorem submit_answers (h : (analysis cfg).Reachable s) {repositoryId ownerId : Nat} {scope : Scope}
    (hscope : findScope cfg repositoryId ownerId = some scope) (recordSettled : Bool) :
    ∃ db j, submitAlone cfg r s.db recordSettled repositoryId ownerId =
        (db, .returned (some j)) ∧
      (Answers cfg r db scope j ↔ ¬ Outdated cfg r s.db scope) := by
  have hs := consistent_reachable h
  have hfound := (scope_found hscope).1
  have hsubmitted : Submitted cfg r s scope
      (submitAlone cfg r s.db recordSettled repositoryId ownerId) := by
    unfold submitAlone
    rw [hscope]
    cases hfind : completedSnapshot cfg r s.db scope with
    | some t => exact submitted_completed hs hfound hfind
    | none =>
      cases hjob : activeJob cfg s.db scope with
      | some j => exact submitted_active hs hfound hfind hjob
      | none => exact submitted_absent hs hfound hfind hjob
  rcases hsubmitted with ⟨j, hreturned, hanswer⟩
  exact ⟨_, j, Prod.ext rfl hreturned, hanswer⟩

/-- The first submission is answered. -/
theorem submit_answers_initial : ∃ db j,
    submitAlone oneRepository 0 initial.db true 1 7 = (db, .returned (some j)) ∧
      Answers oneRepository 0 db ⟨1, 7, "head"⟩ j := by
  have hreach : (analysis oneRepository).Reachable initial :=
    ⟨initial, rfl, Relation.ReflTransGen.refl⟩
  have hscope : findScope oneRepository 1 7 = some ⟨1, 7, "head"⟩ := by decide
  rcases submit_answers hreach hscope true (r := 0) with ⟨db, j, hreturned, hanswer⟩
  refine ⟨db, j, hreturned, hanswer.mpr ?_⟩
  rintro ⟨x, hx, _⟩
  cases hx

/-- Worker `0` completes the job with the producer set of its older build. -/
def olderBuild : List Action :=
  submission 0 ++ List.replicate 17 (.worker 0 (.next none))

/-- The job that a call has returned. -/
def returnedJob : Request → Option AnalysisJob
  | .returned job => job
  | _ => none

theorem returnedJob_eq_some {q : Request} (h : returnedJob q = some j) :
    q = .returned (some j) := by
  cases q with
  | returned job => exact congrArg Request.returned h
  | _ => cases h

/-- A newer build submits the repository, and is given the older snapshot. -/
theorem submit_outdated : ∃ s db j, (analysis oneRepository).exec initial olderBuild = some s ∧
    submitAlone oneRepository 1 s.db true 1 7 = (db, .returned (some j)) ∧
      ¬ Answers oneRepository 1 db ⟨1, 7, "head"⟩ j := by
  have hrun : (((analysis oneRepository).exec initial olderBuild).bind (fun s =>
      (returnedJob (submitAlone oneRepository 1 s.db true 1 7).2).map (fun j =>
        decide (Answers oneRepository 1 (submitAlone oneRepository 1 s.db true 1 7).1
          ⟨1, 7, "head"⟩ j)))) = some false := by decide +kernel
  rcases Option.bind_eq_some_iff.mp hrun with ⟨s, hs, hsubmit⟩
  rcases Option.map_eq_some_iff.mp hsubmit with ⟨j, hj, hanswer⟩
  exact ⟨s, _, j, hs, Prod.ext rfl (returnedJob_eq_some hj), of_decide_eq_false hanswer⟩

end Submission

end Jobs

end Partha
