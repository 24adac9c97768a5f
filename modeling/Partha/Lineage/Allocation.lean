import Partha.Lineage.Transactions

/-!
# Sequence Allocation

What holds of lineages, members and sequences in every interleaving, on either
dialect.

A step changes the committed tables in one of three ways, and `Effect` lists
them: a standalone import, an import into a lineage, a deletion. Everything
else a step does concerns the transaction that takes it, and `Frame` says what
it leaves the others. The invariants are proved from these two and never from
the code of a step again.

`Tables` is the invariant of the committed rows. It needs to know that what an
earlier statement of an import read is still so when it commits, and that is
`CallOk`: a call that allocated in an existing lineage holds its lock, so the row has not moved; a
call that inserted a lineage holds the entry of the unique index, so nobody
else has committed that triple. From the first it follows that no other call
has added a member since the duplicate check.

## Main definitions

* `Frame`: What a step of one call leaves the other calls.
* `Effect`: What a step does to the committed tables.
* `After`: Where a step leaves its own call.
* `Tables`: The invariant of the committed rows.
* `CallOk`: What a call's stand says about the rows and the locks.
* `Consistent`: Both, with distinct uncommitted lineages.

## Theorems

* `step_frame`: Every step leaves the other calls their stand and their locks.
* `step_effect`: Every step has one of the three effects or none.
* `step_after`: Every step leaves its own call in a stand it has reason for.
* `tables_effect`: Each effect keeps the invariant of the rows.
* `step_consistent`: Every step keeps the invariant.
* `consistent_of_reachable`: It holds in every reachable state.
-/

namespace Partha

namespace Lineage

open List

variable {dialect : Dialect}

section Frames

/-- What a step of call `c` leaves the other calls. -/
structure Frame (c : Nat) (s s' : State) : Prop where
  call : ∀ c', c' ≠ c → s'.call c' = s.call c'
  lock : ∀ id c', c' ≠ c → s.lock id = some c' → s'.lock id = some c'
  keyLock : ∀ k c', c' ≠ c → s.keyLock k = some c' → s'.keyLock k = some c'
  uuid : s.nextUuid ≤ s'.nextUuid

variable {c attempt lineageId : Nat} {s s' : State} {request : ImportRequest}
  {record : RepositoryRecord}

theorem Frame.trans {t u : State} (h : Frame c s t) (h' : Frame c t u) : Frame c s u where
  call := fun c' hc => (h'.call c' hc).trans (h.call c' hc)
  lock := fun id c' hc hl => h'.lock id c' hc (h.lock id c' hc hl)
  keyLock := fun k c' hc hl => h'.keyLock k c' hc (h.keyLock k c' hc hl)
  uuid := Nat.le_trans h.uuid h'.uuid

theorem frame_setCall (s : State) (c : Nat) (q : Call) : Frame c s (s.setCall c q) where
  call := fun c' hc => by simp only [State.setCall, if_neg hc]
  lock := fun _ _ _ hl => hl
  keyLock := fun _ _ _ hl => hl
  uuid := Nat.le_refl _

@[simp]
theorem call_setCall (s : State) (c : Nat) (q : Call) : (s.setCall c q).call c = q :=
  if_pos rfl

/-- A lock is only taken when no other call holds it. -/
theorem frame_acquire {id : Nat} (h : s.Unlocked id c) : Frame c s (s.acquire id c) where
  call := fun _ _ => rfl
  lock := by
    intro id' c' hc hl
    simp only [State.acquire]
    split
    · rename_i hid
      subst hid
      rcases h with h | h
      · rw [h] at hl
        cases hl
      · rw [h, Option.some.injEq] at hl
        exact absurd hl.symm hc
    · exact hl
  keyLock := fun _ _ _ hl => hl
  uuid := Nat.le_refl _

theorem frame_acquireKey {k : CanonicalKey} (c : Nat) (h : s.keyLock k = none) :
    Frame c s (s.acquireKey k c) where
  call := fun _ _ => rfl
  lock := fun _ _ _ hl => hl
  keyLock := by
    intro k' c' _ hl
    simp only [State.acquireKey]
    split
    · rename_i hk
      rw [hk, h] at hl
      cases hl
    · exact hl
  uuid := Nat.le_refl _

theorem frame_release (s : State) (c : Nat) : Frame c s (s.release c) where
  call := fun _ _ => rfl
  lock := by
    intro id c' hc hl
    simp only [State.release]
    rw [if_neg (by rw [hl, Option.some.injEq]; exact hc), hl]
  keyLock := by
    intro k c' hc hl
    simp only [State.release]
    rw [if_neg (by rw [hl, Option.some.injEq]; exact hc), hl]
  uuid := Nat.le_refl _

/-- Writing the tables and drawing identifiers is no concern of the other
    calls' stands and locks. -/
theorem frame_tables (s : State) (c : Nat) (lineages : List RepositoryLineage)
    (repositories : List RepositoryRecord) (history : List Allocation) {uuid : Nat}
    (h : s.nextUuid ≤ uuid) :
    Frame c s { s with
      lineages := lineages
      repositories := repositories
      history := history
      nextUuid := uuid } where
  call := fun _ _ => rfl
  lock := fun _ _ _ hl => hl
  keyLock := fun _ _ _ hl => hl
  uuid := h

theorem frame_releaseSetCall (s : State) (c : Nat) (q : Call) :
    Frame c s ((s.release c).setCall c q) :=
  (frame_release s c).trans (frame_setCall _ c q)

theorem frame_retryAdd (s : State) (c : Nat) (request : ImportRequest) (attempt : Nat) :
    Frame c s (retryAdd s c request attempt) := by
  unfold retryAdd
  split
  · exact frame_releaseSetCall s c _
  · exact frame_releaseSetCall s c _

theorem frame_beginAdd (s : State) (c : Nat) (request : ImportRequest) :
    Frame c s (beginAdd s c request) := by
  have hdraw : Frame c s { s with nextUuid := s.nextUuid + 1 } :=
    frame_tables s c _ _ _ (Nat.le_succ _)
  unfold beginAdd commitStandalone
  simp only
  split
  · split
    · exact hdraw.trans (frame_setCall _ c _)
    · exact (frame_tables s c _ _ _ (Nat.le_succ _)).trans (frame_setCall _ c _)
  · exact hdraw.trans (frame_setCall _ c _)

theorem frame_createLineage (h : createLineage s c request attempt = some s') : Frame c s s' := by
  unfold createLineage at h
  split at h
  · simp only at h
    split at h
    · rename_i hfree
      split at h
      · cases h
        exact frame_retryAdd s c request attempt
      · cases h
        exact ((frame_acquireKey c hfree).trans
          (frame_tables _ c _ _ _ (Nat.le_succ _))).trans (frame_setCall _ c _)
    · cases h
  · cases h
    exact frame_retryAdd s c request attempt

theorem frame_allocateExisting (h : allocateExisting s c request attempt lineageId = some s') :
    Frame c s s' := by
  unfold allocateExisting at h
  split at h
  · rename_i hfree
    split at h
    · cases h
      exact (frame_acquire hfree).trans (frame_setCall _ c _)
    · cases h
      exact frame_releaseSetCall s c _
  · cases h

theorem frame_commitAdd (s : State) (c : Nat) (request : ImportRequest) (attempt : Nat)
    (lineage : RepositoryLineage) (isNew : Bool) :
    Frame c s (commitAdd s c request attempt lineage isNew) := by
  unfold commitAdd
  simp only
  split
  · exact frame_retryAdd s c request attempt
  · exact (frame_tables s c _ _ _ (Nat.le_refl _)).trans (frame_releaseSetCall _ c _)

theorem frame_lockLineage (h : lockLineage dialect s c record lineageId = some s') :
    Frame c s s' := by
  unfold lockLineage at h
  split at h
  · split at h
    · rename_i hfree
      split at h
      · cases h
        exact (frame_acquire hfree).trans (frame_setCall _ c _)
      · cases h
        exact frame_releaseSetCall s c _
    · cases h
  · split at h
    · cases h
      exact frame_setCall s c _
    · cases h
      exact frame_releaseSetCall s c _

theorem frame_commitDelete {latest : Option (Option Nat)}
    (h : commitDelete s c record lineageId latest = some s') : Frame c s s' := by
  unfold commitDelete at h
  split at h
  · simp only at h
    split at h
    · cases h
      exact (frame_tables s c _ _ _ (Nat.le_refl _)).trans (frame_releaseSetCall _ c _)
    · cases h
      exact frame_releaseSetCall s c _
  · cases h

theorem frame_commitDeleteStandalone (s : State) (c : Nat) (record : RepositoryRecord) :
    Frame c s (commitDeleteStandalone s c record) := by
  unfold commitDeleteStandalone
  simp only
  split
  · exact (frame_tables s c _ _ _ (Nat.le_refl _)).trans (frame_setCall _ c _)
  · exact frame_setCall s c _

end Frames

section Steps

/-- The steps, each with the stand of the call that takes it. -/
inductive Taken (dialect : Dialect) (s : State) : Action → State → Prop
  | beginAdd {c request} : s.call c = .idle →
      Taken dialect s (.beginAdd c request) (beginAdd s c request)
  | findLineage {c request attempt} : s.call c = .adding request attempt →
      Taken dialect s (.findLineage c) (findLineage s c request attempt)
  | createLineage {c request attempt s'} : s.call c = .missing request attempt →
      createLineage s c request attempt = some s' → Taken dialect s (.createLineage c) s'
  | allocateExisting {c request attempt lineageId s'} :
      s.call c = .found request attempt lineageId →
      allocateExisting s c request attempt lineageId = some s' →
      Taken dialect s (.allocateSequence c) s'
  | allocateNew {c request attempt lineage} : s.call c = .created request attempt lineage →
      Taken dialect s (.allocateSequence c) (allocateNew s c request attempt lineage)
  | checkDuplicate {c request attempt lineage isNew} :
      s.call c = .allocated request attempt lineage isNew →
      Taken dialect s (.checkDuplicate c) (checkDuplicate s c request attempt lineage isNew)
  | commitAdd {c request attempt lineage isNew} :
      s.call c = .checked request attempt lineage isNew →
      Taken dialect s (.commitAdd c) (commitAdd s c request attempt lineage isNew)
  | beginDelete {c repositoryId ownerId} : s.call c = .idle →
      Taken dialect s (.beginDelete c repositoryId ownerId) (beginDelete s c repositoryId ownerId)
  | lockLineage {c record lineageId s'} : s.call c = .deleting record →
      record.lineageId = some lineageId → lockLineage dialect s c record lineageId = some s' →
      Taken dialect s (.lockLineage c) s'
  | planLatest {c record lineage} : s.call c = .locked record lineage →
      Taken dialect s (.planLatest c)
        (s.setCall c (.planned record lineage.id (plan s.repositories lineage record)))
  | commitDelete {c record lineageId latest s'} : s.call c = .planned record lineageId latest →
      commitDelete s c record lineageId latest = some s' → Taken dialect s (.commitDelete c) s'
  | commitDeleteStandalone {c record} : s.call c = .deleting record → record.lineageId = none →
      Taken dialect s (.commitDelete c) (commitDeleteStandalone s c record)
  | crash {c} : Taken dialect s (.crash c) ((s.release c).setCall c .failed)

variable {s s' : State} {a : Action}

theorem step_taken (h : step dialect s a = some s') : Taken dialect s a s' := by
  cases a with
  -- The steps of an import.
  | beginAdd c request =>
    simp only [step] at h
    split at h
    · rename_i hc
      exact Option.some.inj h ▸ .beginAdd hc
    · cases h
  | findLineage c =>
    simp only [step] at h
    split at h
    · rename_i hc
      exact Option.some.inj h ▸ .findLineage hc
    · cases h
  | createLineage c =>
    simp only [step] at h
    split at h
    · rename_i hc
      exact .createLineage hc h
    · cases h
  | allocateSequence c =>
    simp only [step] at h
    split at h
    · rename_i hc
      exact .allocateExisting hc h
    · rename_i hc
      exact Option.some.inj h ▸ .allocateNew hc
    · cases h
  | checkDuplicate c =>
    simp only [step] at h
    split at h
    · rename_i hc
      exact Option.some.inj h ▸ .checkDuplicate hc
    · cases h
  | commitAdd c =>
    simp only [step] at h
    split at h
    · rename_i hc
      exact Option.some.inj h ▸ .commitAdd hc
    · cases h
  -- The steps of a deletion.
  | beginDelete c repositoryId ownerId =>
    simp only [step] at h
    split at h
    · rename_i hc
      exact Option.some.inj h ▸ .beginDelete hc
    · cases h
  | lockLineage c =>
    simp only [step] at h
    split at h
    · rename_i hc
      split at h
      · rename_i hl
        exact .lockLineage hc hl h
      · cases h
    · cases h
  | planLatest c =>
    simp only [step] at h
    split at h
    · rename_i hc
      exact Option.some.inj h ▸ .planLatest hc
    · cases h
  | commitDelete c =>
    simp only [step] at h
    split at h
    · rename_i hc
      exact .commitDelete hc h
    · rename_i hc
      split at h
      · rename_i hl
        exact Option.some.inj h ▸ .commitDeleteStandalone hc hl
      · cases h
    · cases h
  | crash c =>
    simp only [step] at h
    split at h
    · cases h
    · cases h
    · cases h
    · cases h
    · exact Option.some.inj h ▸ .crash

theorem step_frame (h : step dialect s a = some s') : Frame a.caller s s' := by
  cases step_taken h with
  | beginAdd hc => exact frame_beginAdd s _ _
  | findLineage hc =>
    simp only [findLineage]
    split
    · exact frame_setCall s _ _
    · exact frame_setCall s _ _
  | createLineage hc h' => exact frame_createLineage h'
  | allocateExisting hc h' => exact frame_allocateExisting h'
  | allocateNew hc => exact frame_setCall s _ _
  | checkDuplicate hc =>
    simp only [checkDuplicate]
    split
    · exact frame_releaseSetCall s _ _
    · exact frame_setCall s _ _
  | commitAdd hc => exact frame_commitAdd s _ _ _ _ _
  | beginDelete hc =>
    simp only [beginDelete]
    split
    · split
      · exact frame_setCall s _ _
      · exact frame_setCall s _ _
    · exact frame_setCall s _ _
  | lockLineage hc hl h' => exact frame_lockLineage h'
  | planLatest hc => exact frame_setCall s _ _
  | commitDelete hc h' => exact frame_commitDelete h'
  | commitDeleteStandalone hc hl => exact frame_commitDeleteStandalone s _ _
  | crash => exact frame_releaseSetCall s _ _

end Steps

section Effects

/-- What a step of call `c` does to the committed tables: nothing, an import on
    its own, an import into a lineage, or a deletion. -/
inductive Effect (c : Nat) (s s' : State) : Prop
  | none : s'.lineages = s.lineages → s'.repositories = s.repositories → s'.history = s.history →
      Effect c s s'
  | standalone (record : RepositoryRecord) : s'.call c = .added record → record.lineageId = .none →
      record.id = s.nextUuid → s.nextUuid < s'.nextUuid → s'.lineages = s.lineages →
      s'.repositories = s.repositories ++ [record] → s'.history = s.history → Effect c s s'
  | member (request : ImportRequest) (attempt : Nat) (lineage : RepositoryLineage) (isNew : Bool)
      (record : RepositoryRecord) : s'.call c = .added record →
      s.call c = .checked request attempt lineage isNew →
      record = request.record (some lineage.id) (some (lineage.nextSequence - 1)) →
      record.ownerId = lineage.ownerId →
      s'.lineages = pointedLineages s lineage isNew record.id →
      s'.repositories = s.repositories ++ [record] →
      s'.history = s.history ++ [⟨lineage.id, lineage.nextSequence - 1, record.id⟩] →
      Effect c s s'
  | deletion (record : RepositoryRecord) (lineageId : Nat) (latest : Option (Option Nat)) :
      s'.call c = .deleted record →
      (s.call c = .planned record lineageId latest ∧ (latest = .none ∨ s.Unlocked lineageId c)) ∨
        (s.call c = .deleting record ∧ record.lineageId = .none ∧ latest = .none) →
      s'.lineages = repointedLineages s.lineages lineageId latest →
      s'.repositories = s.repositories.filter (fun r => r.id ≠ record.id) →
      s'.history = s.history → latestIsMember s'.lineages s'.repositories = true → Effect c s s'

theorem effect_retryAdd (s : State) (c : Nat) (request : ImportRequest) (attempt : Nat) :
    Effect c s (retryAdd s c request attempt) := by
  unfold retryAdd
  split
  · exact .none rfl rfl rfl
  · exact .none rfl rfl rfl

variable {s : State}

theorem effect_commitAdd {c : Nat} {request : ImportRequest} {attempt : Nat}
    {lineage : RepositoryLineage} {isNew : Bool}
    (hc : s.call c = .checked request attempt lineage isNew) :
    Effect c s (commitAdd s c request attempt lineage isNew) := by
  unfold commitAdd
  simp only
  split
  · exact effect_retryAdd s c request attempt
  · rename_i hfail
    simp only [not_or, ne_eq, not_not] at hfail
    exact .member request attempt lineage isNew _ (call_setCall _ c _) hc rfl hfail.2.2 rfl rfl rfl

theorem step_effect {s' : State} {a : Action} (h : step dialect s a = some s') :
    Effect a.caller s s' := by
  cases step_taken h with
  -- An import writes nothing before its commit, but for a repository that is not of GitHub.
  | beginAdd hc =>
    simp only [beginAdd, commitStandalone]
    split
    · split
      · exact .none rfl rfl rfl
      · exact .standalone _ (call_setCall _ _ _) rfl rfl (Nat.lt_succ_self _) rfl rfl rfl
    · exact .none rfl rfl rfl
  | findLineage hc =>
    simp only [findLineage]
    split
    · exact .none rfl rfl rfl
    · exact .none rfl rfl rfl
  | createLineage hc h' =>
    unfold createLineage at h'
    split at h'
    · simp only at h'
      split at h'
      · split at h'
        · cases h'
          exact effect_retryAdd s _ _ _
        · cases h'
          exact .none rfl rfl rfl
      · cases h'
    · cases h'
      exact effect_retryAdd s _ _ _
  | allocateExisting hc h' =>
    unfold allocateExisting at h'
    split at h'
    · split at h'
      · cases h'
        exact .none rfl rfl rfl
      · cases h'
        exact .none rfl rfl rfl
    · cases h'
  | allocateNew hc => exact .none rfl rfl rfl
  | checkDuplicate hc =>
    simp only [checkDuplicate]
    split
    · exact .none rfl rfl rfl
    · exact .none rfl rfl rfl
  | commitAdd hc => exact effect_commitAdd hc
  -- A deletion writes nothing before its commit either.
  | beginDelete hc =>
    simp only [beginDelete]
    split
    · split
      · exact .none rfl rfl rfl
      · exact .none rfl rfl rfl
    · exact .none rfl rfl rfl
  | lockLineage hc hl h' =>
    unfold lockLineage at h'
    split at h'
    · split at h'
      · split at h'
        · cases h'
          exact .none rfl rfl rfl
        · cases h'
          exact .none rfl rfl rfl
      · cases h'
    · split at h'
      · cases h'
        exact .none rfl rfl rfl
      · cases h'
        exact .none rfl rfl rfl
  | planLatest hc => exact .none rfl rfl rfl
  | commitDelete hc h' =>
    unfold commitDelete at h'
    split at h'
    · rename_i hfree
      simp only at h'
      split at h'
      · rename_i hmember
        cases h'
        exact .deletion _ _ _ (call_setCall _ _ _) (.inl ⟨hc, hfree⟩) rfl rfl rfl hmember
      · cases h'
        exact .none rfl rfl rfl
    · cases h'
  | commitDeleteStandalone hc hl =>
    simp only [commitDeleteStandalone]
    split
    · rename_i hmember
      exact .deletion _ 0 none (call_setCall _ _ _) (.inr ⟨hc, hl, rfl⟩) rfl rfl rfl hmember
    · exact .none rfl rfl rfl
  | crash => exact .none rfl rfl rfl

end Effects

section Stands

/-- The request a call is importing. -/
def Call.request : Call → Option ImportRequest
  | .adding request _ | .found request _ _ | .missing request _ | .created request _ _
  | .allocated request _ _ _ | .checked request _ _ _ => some request
  | _ => none

/-- The record a call is deleting. -/
def Call.record : Call → Option RepositoryRecord
  | .deleting record | .locked record _ | .planned record _ _ => some record
  | _ => none

/-- The stands of an import that has written nothing. -/
def Call.Looking : Call → Prop
  | .adding _ _ | .found _ _ _ | .missing _ _ => True
  | _ => False

/-- No committed member of lineage `lineageId` has this revision. -/
def NoDuplicate (s : State) (lineageId : Nat) (revision : Option String) : Prop :=
  ∀ r ∈ s.repositories, r.lineageId = some lineageId → r.revisionValue ≠ revision

/-- The stand in which a step can leave its own call `c`, and why it is there. -/
inductive After (dialect : Dialect) (s s' : State) (c : Nat) : Call → Prop
  | begun {request attempt} : request.repositoryId = s.nextUuid → s.nextUuid < s'.nextUuid →
      s'.repositories = s.repositories → After dialect s s' c (.adding request attempt)
  | looking {q} : q.Looking → q.request = (s.call c).request → After dialect s s' c q
  | created {request attempt l} : (s.call c).request = some request → l.id = s.nextUuid →
      s'.nextUuid = s.nextUuid + 1 → s'.keyLock l.key = some c →
      (∀ x ∈ s.lineages, x.key ≠ l.key) → l.nextSequence = 1 → s'.lineages = s.lineages →
      After dialect s s' c (.created request attempt l)
  | allocated {request attempt x l} : (s.call c).request = some request → x ∈ s.lineages →
      l = { x with nextSequence := x.nextSequence + 1 } → s'.lock l.id = some c →
      s'.lineages = s.lineages → After dialect s s' c (.allocated request attempt l false)
  | allocatedNew {request attempt l} : s.call c = .created request attempt l →
      s'.keyLock = s.keyLock → s'.nextUuid = s.nextUuid → s'.lineages = s.lineages →
      After dialect s s' c
        (.allocated request attempt { l with nextSequence := l.nextSequence + 1 } true)
  | checked {request attempt l isNew} : s.call c = .allocated request attempt l isNew →
      NoDuplicate s l.id request.revisionValue → s'.lock = s.lock → s'.keyLock = s.keyLock →
      s'.nextUuid = s.nextUuid → s'.lineages = s.lineages → s'.repositories = s.repositories →
      After dialect s s' c (.checked request attempt l isNew)
  | deleting {record} : record ∈ s.repositories → s'.repositories = s.repositories →
      After dialect s s' c (.deleting record)
  | locked {record l} : s.call c = .deleting record → record.lineageId = some l.id →
      l ∈ s.lineages → s'.lineages = s.lineages → s'.repositories = s.repositories →
      (dialect = .postgresql → s'.lock l.id = some c) → After dialect s s' c (.locked record l)
  | planned {record l} : s.call c = .locked record l → s'.lock = s.lock →
      s'.lineages = s.lineages → s'.repositories = s.repositories →
      After dialect s s' c (.planned record l.id (plan s.repositories l record))
  | ended {q} : q.request = none → q.record = none → After dialect s s' c q

variable {s s' : State} {c attempt lineageId : Nat} {request : ImportRequest}

theorem after_retryAdd (hc : (s.call c).request = some request)
    (hs : s' = retryAdd s c request attempt) : After dialect s s' c (s'.call c) := by
  subst hs
  unfold retryAdd
  split
  · rw [call_setCall]
    exact .looking trivial hc.symm
  · rw [call_setCall]
    exact .ended rfl rfl

theorem after_createLineage (hc : s.call c = .missing request attempt)
    (h : createLineage s c request attempt = some s') : After dialect s s' c (s'.call c) := by
  have hreq : (s.call c).request = some request := by
    rw [hc]
    rfl
  unfold createLineage at h
  split at h
  · simp only at h
    split at h
    · split at h
      · exact after_retryAdd hreq (Option.some.inj h).symm
      · rename_i htaken
        rw [← Option.some.inj h, call_setCall]
        refine .created hreq rfl rfl (if_pos rfl) (fun x hx e => ?_) rfl rfl
        exact htaken (any_eq_true.mpr ⟨x, hx, decide_eq_true e⟩)
    · cases h
  · exact after_retryAdd hreq (Option.some.inj h).symm

theorem after_allocateExisting (hc : s.call c = .found request attempt lineageId)
    (h : allocateExisting s c request attempt lineageId = some s') :
    After dialect s s' c (s'.call c) := by
  unfold allocateExisting at h
  split at h
  · split at h
    · rename_i l hfind
      have hprop := List.find?_some hfind
      simp only [decide_eq_true_eq] at hprop
      rw [← Option.some.inj h, call_setCall]
      exact .allocated (by rw [hc]; rfl) (mem_of_find?_eq_some hfind) rfl (if_pos hprop.1) rfl
    · rw [← Option.some.inj h, call_setCall]
      exact .ended rfl rfl
  · cases h

theorem after_checkDuplicate {l : RepositoryLineage} {isNew : Bool}
    (hc : s.call c = .allocated request attempt l isNew) :
    After dialect s (checkDuplicate s c request attempt l isNew) c
      ((checkDuplicate s c request attempt l isNew).call c) := by
  unfold checkDuplicate
  split
  · rw [call_setCall]
    exact .ended rfl rfl
  · rename_i hnone
    rw [call_setCall]
    refine .checked hc (fun r hr hm hrev => ?_) rfl rfl rfl rfl rfl
    exact List.find?_eq_none.mp hnone r hr (decide_eq_true ⟨hm, hrev⟩)

theorem after_lockLineage {record : RepositoryRecord} (hc : s.call c = .deleting record)
    (hl : record.lineageId = some lineageId)
    (h : lockLineage dialect s c record lineageId = some s') :
    After dialect s s' c (s'.call c) := by
  have hfound : ∀ l, s.lineages.find? (fun l => l.id = lineageId) = some l →
      l ∈ s.lineages ∧ l.id = lineageId := fun l hfind =>
    ⟨mem_of_find?_eq_some hfind, by simpa using List.find?_some hfind⟩
  unfold lockLineage at h
  split at h
  · split at h
    · split at h
      · rename_i l hfind
        rcases hfound l hfind with ⟨hmem, hid⟩
        rw [← Option.some.inj h, call_setCall]
        exact .locked hc (hl.trans (congrArg some hid.symm)) hmem rfl rfl (fun _ => if_pos hid)
      · rw [← Option.some.inj h, call_setCall]
        exact .ended rfl rfl
    · cases h
  · split at h
    · rename_i l hfind
      rcases hfound l hfind with ⟨hmem, hid⟩
      rw [← Option.some.inj h, call_setCall]
      exact .locked hc (hl.trans (congrArg some hid.symm)) hmem rfl rfl (fun e => by cases e)
    · rw [← Option.some.inj h, call_setCall]
      exact .ended rfl rfl

theorem step_after {a : Action} (h : step dialect s a = some s') :
    After dialect s s' a.caller (s'.call a.caller) := by
  cases step_taken h with
  -- The stands of an import.
  | beginAdd hc =>
    simp only [Action.caller, beginAdd, commitStandalone]
    split
    · split
      · rw [call_setCall]
        exact .ended rfl rfl
      · rw [call_setCall]
        exact .ended rfl rfl
    · rw [call_setCall]
      exact .begun rfl (Nat.lt_succ_self _) rfl
  | findLineage hc =>
    simp only [Action.caller, findLineage]
    split
    · rw [call_setCall]
      exact .looking trivial (by rw [hc]; rfl)
    · rw [call_setCall]
      exact .looking trivial (by rw [hc]; rfl)
  | createLineage hc h' => exact after_createLineage hc h'
  | allocateExisting hc h' => exact after_allocateExisting hc h'
  | allocateNew hc =>
    simp only [Action.caller, allocateNew, call_setCall]
    exact .allocatedNew hc rfl rfl rfl
  | checkDuplicate hc => exact after_checkDuplicate hc
  | @commitAdd c request attempt l isNew hc =>
    simp only [Action.caller, commitAdd]
    split
    · exact after_retryAdd (by rw [hc]; rfl) rfl
    · rw [call_setCall]
      exact .ended rfl rfl
  -- The stands of a deletion.
  | beginDelete hc =>
    simp only [Action.caller, beginDelete]
    split
    · rename_i record hfind
      split
      · rw [call_setCall]
        exact .deleting (mem_of_find?_eq_some hfind) rfl
      · rw [call_setCall]
        exact .ended rfl rfl
    · rw [call_setCall]
      exact .ended rfl rfl
  | lockLineage hc hl h' => exact after_lockLineage hc hl h'
  | planLatest hc =>
    simp only [Action.caller, call_setCall]
    exact .planned hc rfl rfl rfl
  | commitDelete hc h' =>
    unfold commitDelete at h'
    split at h'
    · simp only at h'
      split at h'
      · rw [← Option.some.inj h', Action.caller, call_setCall]
        exact .ended rfl rfl
      · rw [← Option.some.inj h', Action.caller, call_setCall]
        exact .ended rfl rfl
    · cases h'
  | commitDeleteStandalone hc hl =>
    simp only [Action.caller, commitDeleteStandalone]
    split
    · rw [call_setCall]
      exact .ended rfl rfl
    · rw [call_setCall]
      exact .ended rfl rfl
  | crash =>
    rw [Action.caller, call_setCall]
    exact .ended rfl rfl

end Stands

section Invariant

/-- The uncommitted lineage a call has inserted. -/
def Call.pending : Call → Option RepositoryLineage
  | .created _ _ l => some l
  | .allocated _ _ l true => some l
  | .checked _ _ l true => some l
  | _ => none

/-- Call `c` inserted this lineage and no other call can commit its triple. -/
structure Pending (s : State) (c : Nat) (l : RepositoryLineage) : Prop where
  keyLock : s.keyLock l.key = some c
  old : l.id < s.nextUuid
  absent : ∀ x ∈ s.lineages, x.id ≠ l.id ∧ x.key ≠ l.key

/-- Call `c` allocated in this lineage and no other call can move its row. -/
structure Holds (s : State) (c : Nat) (l : RepositoryLineage) : Prop where
  lock : s.lock l.id = some c
  row : ∃ x ∈ s.lineages, x.id = l.id ∧ x.ownerId = l.ownerId ∧ x.nextSequence + 1 = l.nextSequence

/-- What the stand of call `c` says about the rows and the locks. -/
def CallOk (s : State) (c : Nat) : Call → Prop
  | .created _ _ l => Pending s c l ∧ l.nextSequence = 1
  | .allocated _ _ l true => Pending s c l ∧ l.nextSequence = 2
  | .checked _ _ l true => Pending s c l ∧ l.nextSequence = 2
  | .allocated _ _ l false => Holds s c l
  | .checked request _ l false => Holds s c l ∧ NoDuplicate s l.id request.revisionValue
  | _ => True

/-- The invariant of the committed rows. -/
structure Tables (s : State) : Prop where
  idsNodup : (s.lineages.map (·.id)).Nodup
  idsOld : ∀ l ∈ s.lineages, l.id < s.nextUuid
  keysNodup : (s.lineages.map RepositoryLineage.key).Nodup
  owner : ∀ r ∈ s.repositories, ∀ lineageId, r.lineageId = some lineageId →
    ∃ l ∈ s.lineages, l.id = lineageId ∧ l.ownerId = r.ownerId
  revisions : ∀ r ∈ s.repositories, ∀ r' ∈ s.repositories, ∀ lineageId,
    r.lineageId = some lineageId → r'.lineageId = some lineageId →
      r.revisionValue = r'.revisionValue → r = r'
  sequences : ∀ r ∈ s.repositories, ∀ lineageId, r.lineageId = some lineageId →
    ∃ q, r.sequence = some q ∧ ⟨lineageId, q, r.id⟩ ∈ s.history
  increasing : s.history.Pairwise (fun a b => a.lineageId = b.lineageId → a.sequence < b.sequence)
  bounded : ∀ a ∈ s.history, ∃ l ∈ s.lineages, l.id = a.lineageId ∧ a.sequence < l.nextSequence

/-- The invariant of every interleaving. -/
structure Consistent (s : State) : Prop where
  tables : Tables s
  callOk : ∀ c, CallOk s c (s.call c)
  pending : ∀ c c' l l', (s.call c).pending = some l → (s.call c').pending = some l' →
    l.id = l'.id → c = c'

theorem consistent_initial : Consistent initial where
  tables :=
    { idsNodup := nodup_nil
      idsOld := fun _ h => absurd h not_mem_nil
      keysNodup := nodup_nil
      owner := fun _ h => absurd h not_mem_nil
      revisions := fun _ h => absurd h not_mem_nil
      sequences := fun _ h => absurd h not_mem_nil
      increasing := List.Pairwise.nil
      bounded := fun _ h => absurd h not_mem_nil }
  callOk := fun _ => trivial
  pending := fun _ _ _ _ h => by simp only [initial, Call.pending, reduceCtorEq] at h

variable {s : State} {c attempt : Nat} {l : RepositoryLineage} {request : ImportRequest}

theorem Consistent.of_pending (h : Consistent s) (hp : (s.call c).pending = some l) :
    Pending s c l := by
  have hok := h.callOk c
  revert hp hok
  cases s.call c with
  | created request attempt x =>
    intro hp hok
    exact Option.some.inj hp ▸ hok.1
  | allocated request attempt x isNew | checked request attempt x isNew =>
    cases isNew with
    | true =>
      intro hp hok
      exact Option.some.inj hp ▸ hok.1
    | false =>
      intro hp
      cases hp
  | _ =>
    intro hp
    cases hp

/-- The lineage row an import into an existing lineage is about to advance. -/
theorem Consistent.of_checked (h : Consistent s)
    (hc : s.call c = .checked request attempt l false) :
    Holds s c l ∧ NoDuplicate s l.id request.revisionValue := by
  have hok := h.callOk c
  rw [hc] at hok
  exact hok

theorem Consistent.of_checkedNew (h : Consistent s)
    (hc : s.call c = .checked request attempt l true) : Pending s c l ∧ l.nextSequence = 2 := by
  have hok := h.callOk c
  rw [hc] at hok
  exact hok

/-- A lineage nobody has committed has no members and no allocations. -/
theorem Pending.no_member (hp : Pending s c l) (ht : Tables s) :
    ∀ r ∈ s.repositories, r.lineageId ≠ some l.id := by
  intro r hr e
  rcases ht.owner r hr _ e with ⟨x, hx, hid, _⟩
  exact (hp.absent x hx).1 hid

theorem Pending.no_allocation (hp : Pending s c l) (ht : Tables s) :
    ∀ a ∈ s.history, a.lineageId ≠ l.id := by
  intro a ha e
  rcases ht.bounded a ha with ⟨x, hx, hid, _⟩
  exact (hp.absent x hx).1 (hid.trans e)

/-- Every allocation of the lineage an import is about to commit to is smaller
    than the import's own. -/
theorem sequence_new (h : Consistent s) {isNew : Bool}
    (hc : s.call c = .checked request attempt l isNew) :
    ∀ a ∈ s.history, a.lineageId = l.id → a.sequence < l.nextSequence - 1 := by
  intro a ha e
  cases isNew with
  | true => exact absurd e ((h.of_checkedNew hc).1.no_allocation h.tables a ha)
  | false =>
    rcases (h.of_checked hc).1.row with ⟨x, hx, hid, _, hnext⟩
    rcases h.tables.bounded a ha with ⟨y, hy, hyid, hlt⟩
    have hxy : y = x :=
      Rows.eq_of_key_eq h.tables.idsNodup hy hx (hyid.trans (e.trans hid.symm))
    subst hxy
    omega

end Invariant

section Preservation

variable {s s' : State} {c c' attempt : Nat} {x l : RepositoryLineage} {r : RepositoryRecord}
  {request : ImportRequest} {isNew : Bool} {q : Call}

/-- What a row of the table was before the step. -/
theorem lineage_before (he : Effect c s s') {x' : RepositoryLineage} (hx' : x' ∈ s'.lineages) :
    (∃ x ∈ s.lineages, x'.id = x.id ∧ x'.key = x.key ∧ x.nextSequence ≤ x'.nextSequence) ∨
      ∃ request attempt l, s.call c = .checked request attempt l true ∧
        x' = { l with latestRepositoryId := x'.latestRepositoryId } := by
  cases he with
  | none hl => exact .inl ⟨x', hl ▸ hx', rfl, rfl, Nat.le_refl _⟩
  | standalone record _ _ _ _ hl => exact .inl ⟨x', hl ▸ hx', rfl, rfl, Nat.le_refl _⟩
  | member request attempt l isNew record _ hc _ _ hl =>
    rw [hl] at hx'
    cases isNew with
    | true =>
      rcases mem_append.mp hx' with hx | hx
      · exact .inl ⟨x', hx, rfl, rfl, Nat.le_refl _⟩
      · refine .inr ⟨request, attempt, l, hc, ?_⟩
        rw [mem_singleton.mp hx]
    | false =>
      rcases Rows.mem_updateWhere.mp hx' with ⟨hx, _⟩ | ⟨x, hx, _, rfl⟩
      · exact .inl ⟨x', hx, rfl, rfl, Nat.le_refl _⟩
      · exact .inl ⟨x, hx, rfl, rfl, Nat.le_succ _⟩
  | deletion record lineageId latest _ hc hl =>
    rw [hl] at hx'
    cases latest with
    | none => exact .inl ⟨x', hx', rfl, rfl, Nat.le_refl _⟩
    | some m =>
      rcases Rows.mem_updateWhere.mp hx' with ⟨hx, _⟩ | ⟨x, hx, _, rfl⟩
      · exact .inl ⟨x', hx, rfl, rfl, Nat.le_refl _⟩
      · exact .inl ⟨x, hx, rfl, rfl, Nat.le_refl _⟩

/-- Where a row of the table went. -/
theorem lineage_after (he : Effect c s s') (hx : x ∈ s.lineages) :
    ∃ x' ∈ s'.lineages, x'.id = x.id ∧ x'.ownerId = x.ownerId ∧
      x.nextSequence ≤ x'.nextSequence := by
  cases he with
  | none hl => exact ⟨x, hl ▸ hx, rfl, rfl, Nat.le_refl _⟩
  | standalone record _ _ _ _ hl => exact ⟨x, hl ▸ hx, rfl, rfl, Nat.le_refl _⟩
  | member request attempt l isNew record _ _ _ _ hl =>
    rw [hl]
    cases isNew with
    | true => exact ⟨x, mem_append_left _ hx, rfl, rfl, Nat.le_refl _⟩
    | false =>
      refine ⟨_, Rows.mem_updateWhere_of_mem hx, ?_⟩
      split
      · exact ⟨rfl, rfl, Nat.le_succ _⟩
      · exact ⟨rfl, rfl, Nat.le_refl _⟩
  | deletion record lineageId latest _ _ hl =>
    rw [hl]
    cases latest with
    | none => exact ⟨x, hx, rfl, rfl, Nat.le_refl _⟩
    | some m =>
      refine ⟨_, Rows.mem_updateWhere_of_mem hx, ?_⟩
      split
      · exact ⟨rfl, rfl, Nat.le_refl _⟩
      · exact ⟨rfl, rfl, Nat.le_refl _⟩

/-- A lineage row is not written while another call holds its lock. -/
theorem lineage_locked (h : Consistent s) (he : Effect c s s') (hne : c' ≠ c) (hx : x ∈ s.lineages)
    (hl : s.lock x.id = some c') : x ∈ s'.lineages := by
  cases he with
  | none hls => exact hls ▸ hx
  | standalone record _ _ _ _ hls => exact hls ▸ hx
  | member request attempt l isNew record _ hc _ _ hls =>
    rw [hls]
    cases isNew with
    | true => exact mem_append_left _ hx
    | false =>
      refine Rows.mem_updateWhere.mpr (.inl ⟨hx, decide_eq_false ?_⟩)
      intro e
      rw [e, (h.of_checked hc).1.lock, Option.some.injEq] at hl
      exact hne hl.symm
  | deletion record lineageId latest _ hc hls =>
    rw [hls]
    cases latest with
    | none => exact hx
    | some m =>
      refine Rows.mem_updateWhere.mpr (.inl ⟨hx, decide_eq_false ?_⟩)
      intro e
      rcases hc with ⟨_, hnone | hfree | hfree⟩ | ⟨_, _, hnone⟩
      · cases hnone
      · rw [e, hfree] at hl
        cases hl
      · rw [e, hfree, Option.some.injEq] at hl
        exact hne hl.symm
      · cases hnone

/-- A lineage gains no member while another call holds its lock. -/
theorem member_locked (h : Consistent s) (he : Effect c s s') (hne : c' ≠ c) (hx : x ∈ s.lineages)
    (hl : s.lock x.id = some c') (hr : r ∈ s'.repositories) (hm : r.lineageId = some x.id) :
    r ∈ s.repositories := by
  cases he with
  | none _ hrs => exact hrs ▸ hr
  | standalone record _ hnone _ _ _ hrs =>
    rw [hrs] at hr
    rcases mem_append.mp hr with hr | hr
    · exact hr
    · rw [mem_singleton.mp hr, hnone] at hm
      cases hm
  | member request attempt l isNew record _ hc hrecord _ _ hrs =>
    rw [hrs] at hr
    rcases mem_append.mp hr with hr | hr
    · exact hr
    · rw [mem_singleton.mp hr, hrecord, ImportRequest.record, Option.some.injEq] at hm
      cases isNew with
      | true => exact absurd hm.symm ((h.of_checkedNew hc).1.absent x hx).1
      | false =>
        rw [← hm, (h.of_checked hc).1.lock, Option.some.injEq] at hl
        exact absurd hl.symm hne
  | deletion record lineageId latest _ _ _ hrs =>
    rw [hrs] at hr
    exact (mem_filter.mp hr).1

theorem pending_effect (h : Consistent s) (hf : Frame c s s') (he : Effect c s s') (hne : c' ≠ c)
    (hl : (s.call c').pending = some l) : Pending s' c' l := by
  have hp := h.of_pending hl
  refine ⟨hf.keyLock _ _ hne hp.keyLock, Nat.lt_of_lt_of_le hp.old hf.uuid, ?_⟩
  intro x' hx'
  rcases lineage_before he hx' with ⟨x, hx, hid, hkey, _⟩ | ⟨request, attempt, l', hc, hx⟩
  · rw [hid, hkey]
    exact hp.absent x hx
  · -- The new row is the caller's own insertion, with an identifier and an
    -- index entry of its own.
    have hpend : (s.call c).pending = some l' := by
      rw [hc]
      rfl
    rw [hx]
    constructor
    · intro e
      exact hne (h.pending c' c l l' hl hpend e.symm)
    · intro e
      have hkey := (h.of_pending hpend).keyLock
      have e' : l'.key = l.key := e
      rw [e', hp.keyLock, Option.some.injEq] at hkey
      exact hne hkey

theorem holds_effect (h : Consistent s) (hf : Frame c s s') (he : Effect c s s') (hne : c' ≠ c)
    (hl : Holds s c' l) : Holds s' c' l := by
  rcases hl with ⟨hlock, x, hx, hid, hrest⟩
  exact ⟨hf.lock _ _ hne hlock, x, lineage_locked h he hne hx (hid ▸ hlock), hid, hrest⟩

/-- The other calls' stands stay right. -/
theorem callOk_other (h : Consistent s) (hf : Frame c s s') (he : Effect c s s') (hne : c' ≠ c) :
    CallOk s' c' (s'.call c') := by
  rw [hf.call c' hne]
  have hok := h.callOk c'
  have hpend := fun l => pending_effect h hf he hne (l := l)
  revert hok hpend
  cases s.call c' with
  | created request attempt l => exact fun hok hpend => ⟨hpend l rfl, hok.2⟩
  | allocated request attempt l isNew =>
    cases isNew with
    | true => exact fun hok hpend => ⟨hpend l rfl, hok.2⟩
    | false => exact fun hok _ => holds_effect h hf he hne hok
  | checked request attempt l isNew =>
    cases isNew with
    | true => exact fun hok hpend => ⟨hpend l rfl, hok.2⟩
    | false =>
      intro hok _
      refine ⟨holds_effect h hf he hne hok.1, fun r hr hm => ?_⟩
      rcases hok.1.row with ⟨x, hx, hid, _⟩
      have hr' := member_locked h he hne hx (by rw [hid]; exact hok.1.lock) hr (by rw [hm, hid])
      exact hok.2 r hr' hm
  | _ => exact fun _ _ => trivial

/-- Advancing and repointing change neither identifiers nor index entries. -/
theorem nodup_updated {p : RepositoryLineage → Bool} {f : RepositoryLineage → RepositoryLineage}
    (hid : ∀ l, (f l).id = l.id) (hkey : ∀ l, (f l).key = l.key) {rows : List RepositoryLineage}
    (h : (rows.map (·.id)).Nodup ∧ (rows.map RepositoryLineage.key).Nodup) :
    ((Rows.updateWhere p f rows).map (·.id)).Nodup ∧
      ((Rows.updateWhere p f rows).map RepositoryLineage.key).Nodup := by
  have hids : (Rows.updateWhere p f rows).map (·.id) = rows.map (·.id) :=
    Rows.map_updateWhere (fun l _ => hid l) rows
  have hkeys : (Rows.updateWhere p f rows).map RepositoryLineage.key =
      rows.map RepositoryLineage.key := Rows.map_updateWhere (fun l _ => hkey l) rows
  rw [hids, hkeys]
  exact h

theorem keys_effect (h : Consistent s) (he : Effect c s s') :
    (s'.lineages.map (·.id)).Nodup ∧ (s'.lineages.map RepositoryLineage.key).Nodup := by
  have hids := h.tables.idsNodup
  have hkeys := h.tables.keysNodup
  cases he with
  | none hl => exact hl ▸ ⟨hids, hkeys⟩
  | standalone record _ _ _ _ hl => exact hl ▸ ⟨hids, hkeys⟩
  | member request attempt l isNew record _ hc _ _ hl =>
    rw [hl]
    cases isNew with
    | true =>
      have habsent := (h.of_checkedNew hc).1.absent
      simp only [pointedLineages, if_true, map_append, map_cons, map_nil]
      constructor
      · refine nodup_append.mpr ⟨hids, nodup_singleton _, ?_⟩
        intro id hid id' hid'
        rcases mem_map.mp hid with ⟨x, hx, rfl⟩
        rw [mem_singleton.mp hid']
        exact (habsent x hx).1
      · refine nodup_append.mpr ⟨hkeys, nodup_singleton _, ?_⟩
        intro k hk k' hk'
        rcases mem_map.mp hk with ⟨x, hx, rfl⟩
        rw [mem_singleton.mp hk']
        exact (habsent x hx).2
    | false =>
      exact nodup_updated (f := RepositoryLineage.advance record.id) (fun _ => rfl)
        (fun _ => rfl) ⟨hids, hkeys⟩
  | deletion record lineageId latest _ _ hl =>
    rw [hl]
    cases latest with
    | none => exact ⟨hids, hkeys⟩
    | some m =>
      exact nodup_updated (f := RepositoryLineage.repoint m) (fun _ => rfl) (fun _ => rfl)
        ⟨hids, hkeys⟩

/-- A row the table did not hold before is the caller's import. -/
theorem repository_before (he : Effect c s s') (hr : r ∈ s'.repositories) :
    r ∈ s.repositories ∨ r.lineageId = none ∨
      ∃ request attempt l isNew, s.call c = .checked request attempt l isNew ∧
        r = request.record (some l.id) (some (l.nextSequence - 1)) ∧ r.ownerId = l.ownerId ∧
        s'.lineages = pointedLineages s l isNew r.id ∧
        s'.history = s.history ++ [⟨l.id, l.nextSequence - 1, r.id⟩] := by
  cases he with
  | none _ hrs => exact .inl (hrs ▸ hr)
  | standalone record _ hnone _ _ _ hrs =>
    rw [hrs] at hr
    rcases mem_append.mp hr with hr | hr
    · exact .inl hr
    · rw [mem_singleton.mp hr]
      exact .inr (.inl hnone)
  | member request attempt l isNew record _ hc hrecord howner hls hrs hhs =>
    rw [hrs] at hr
    rcases mem_append.mp hr with hr | hr
    · exact .inl hr
    · rw [mem_singleton.mp hr]
      exact .inr (.inr ⟨request, attempt, l, isNew, hc, hrecord, howner, hls, hhs⟩)
  | deletion record lineageId latest _ _ _ hrs =>
    rw [hrs] at hr
    exact .inl (mem_filter.mp hr).1

/-- The history only grows. -/
theorem history_effect (he : Effect c s s') :
    s'.history = s.history ∨ ∃ request attempt l isNew record,
      s.call c = .checked request attempt l isNew ∧
        s'.lineages = pointedLineages s l isNew record ∧
        s'.history = s.history ++ [⟨l.id, l.nextSequence - 1, record⟩] := by
  cases he with
  | none _ _ hh => exact .inl hh
  | standalone _ _ _ _ _ _ _ hh => exact .inl hh
  | member request attempt l isNew record _ hc _ _ hls _ hh =>
    exact .inr ⟨request, attempt, l, isNew, record.id, hc, hls, hh⟩
  | deletion _ _ _ _ _ _ _ hh => exact .inl hh

/-- The row an import advances, after the import. -/
theorem pointed_row (h : Consistent s) (hc : s.call c = .checked request attempt l isNew)
    (record : Nat) :
    ∃ x ∈ pointedLineages s l isNew record, x.id = l.id ∧ x.ownerId = l.ownerId ∧
      x.nextSequence = l.nextSequence ∧ x.latestRepositoryId = some record := by
  cases isNew with
  | true =>
    exact ⟨_, mem_append_right _ (mem_singleton.mpr rfl), rfl, rfl, rfl, rfl⟩
  | false =>
    rcases (h.of_checked hc).1.row with ⟨x, hx, hid, howner, hnext⟩
    refine ⟨_, Rows.mem_updateWhere_of_mem hx, ?_⟩
    rw [if_pos (decide_eq_true hid)]
    exact ⟨hid, howner, hnext, rfl⟩

theorem checked_positive (h : Consistent s) (hc : s.call c = .checked request attempt l isNew) :
    0 < l.nextSequence := by
  cases isNew with
  | true =>
    have := (h.of_checkedNew hc).2
    omega
  | false =>
    rcases (h.of_checked hc).1.row with ⟨x, _, _, _, hnext⟩
    omega

theorem noDuplicate_checked (h : Consistent s) (hc : s.call c = .checked request attempt l isNew) :
    NoDuplicate s l.id request.revisionValue := by
  cases isNew with
  | true =>
    intro r hr hm
    exact absurd hm ((h.of_checkedNew hc).1.no_member h.tables r hr)
  | false => exact (h.of_checked hc).2

theorem tables_effect (h : Consistent s) (hf : Frame c s s') (he : Effect c s s') : Tables s' where
  -- A lineage of the new state is an old one, or the one that the commit inserts.
  idsNodup := (keys_effect h he).1
  keysNodup := (keys_effect h he).2
  idsOld := by
    intro x' hx'
    rcases lineage_before he hx' with ⟨x, hx, hid, _⟩ | ⟨request, attempt, l, hc, hx⟩
    · rw [hid]
      exact Nat.lt_of_lt_of_le (h.tables.idsOld x hx) hf.uuid
    · rw [hx]
      exact Nat.lt_of_lt_of_le (h.of_checkedNew hc).1.old hf.uuid
  -- A member is an old one, or the one that the commit inserts with its lineage.
  owner := by
    intro r hr lineageId hm
    rcases repository_before he hr with
      hr | hnone | ⟨request, attempt, l, isNew, hc, hrec, how, hls, _⟩
    · rcases h.tables.owner r hr lineageId hm with ⟨x, hx, hid, howner⟩
      rcases lineage_after he hx with ⟨x', hx', hid', howner', _⟩
      exact ⟨x', hx', hid'.trans hid, howner'.trans howner⟩
    · rw [hnone] at hm
      cases hm
    · rcases pointed_row h hc r.id with ⟨x, hx, hid, howner, _⟩
      rw [hrec, ImportRequest.record, Option.some.injEq] at hm
      exact ⟨x, hls ▸ hx, hid.trans hm, howner.trans how.symm⟩
  revisions := by
    intro r hr r' hr' lineageId hm hm' hrev
    rcases repository_before he hr with hr | hnone | ⟨request, attempt, l, isNew, hc, hrec, _⟩
    · rcases repository_before he hr' with hr' | hnone | ⟨request, attempt, l, isNew, hc, hrec, _⟩
      · exact h.tables.revisions r hr r' hr' lineageId hm hm' hrev
      · rw [hnone] at hm'
        cases hm'
      · rw [hrec, ImportRequest.record, Option.some.injEq] at hm'
        rw [hrec] at hrev
        exact absurd hrev (noDuplicate_checked h hc r hr (by rw [hm, hm']))
    · rw [hnone] at hm
      cases hm
    · have hm₀ := hm
      rw [hrec, ImportRequest.record, Option.some.injEq] at hm
      rcases repository_before he hr' with
        hr' | hnone | ⟨request', attempt', l', isNew', hc', hrec', _⟩
      · rw [hrec] at hrev
        exact absurd hrev.symm (noDuplicate_checked h hc r' hr' (by rw [hm', hm]))
      · rw [hnone] at hm'
        cases hm'
      · rw [hc] at hc'
        cases hc'
        rw [hrec, hrec']
  sequences := by
    intro r hr lineageId hm
    rcases repository_before he hr with
      hr | hnone | ⟨request, attempt, l, isNew, _, hrec, _, _, hhs⟩
    · rcases h.tables.sequences r hr lineageId hm with ⟨q, hq, hmem⟩
      refine ⟨q, hq, ?_⟩
      rcases history_effect he with hh | ⟨_, _, _, _, _, _, _, hh⟩
      · exact hh ▸ hmem
      · rw [hh]
        exact mem_append_left _ hmem
    · rw [hnone] at hm
      cases hm
    · refine ⟨l.nextSequence - 1, by rw [hrec]; rfl, ?_⟩
      rw [hrec, ImportRequest.record, Option.some.injEq] at hm
      rw [hhs, ← hm]
      exact mem_append_right _ (mem_singleton.mpr rfl)
  -- The history grows by the pair that the commit allocates.
  increasing := by
    rcases history_effect he with hh | ⟨request, attempt, l, isNew, record, hc, _, hh⟩
    · exact hh ▸ h.tables.increasing
    · rw [hh, pairwise_append]
      refine ⟨h.tables.increasing, pairwise_singleton _ _, ?_⟩
      intro a ha b hb e
      rw [mem_singleton.mp hb] at e ⊢
      exact sequence_new h hc a ha e
  bounded := by
    intro a ha
    have hold : a ∈ s.history → ∃ x ∈ s'.lineages, x.id = a.lineageId ∧
        a.sequence < x.nextSequence := by
      intro ha
      rcases h.tables.bounded a ha with ⟨x, hx, hid, hlt⟩
      rcases lineage_after he hx with ⟨x', hx', hid', _, hle⟩
      exact ⟨x', hx', hid'.trans hid, Nat.lt_of_lt_of_le hlt hle⟩
    rcases history_effect he with hh | ⟨request, attempt, l, isNew, record, hc, hls, hh⟩
    · exact hold (hh ▸ ha)
    · rw [hh] at ha
      rcases mem_append.mp ha with ha | ha
      · exact hold ha
      · rcases pointed_row h hc record with ⟨x, hx, hid, _, hnext, _⟩
        have hpos := checked_positive h hc
        rw [mem_singleton.mp ha]
        exact ⟨x, hls ▸ hx, hid, by simp only [hnext]; omega⟩

/-- The stand a step leaves its own call is right. -/
theorem callOk_self (h : Consistent s) (hq : After dialect s s' c q) : CallOk s' c q := by
  cases hq with
  | begun => trivial
  | looking hlook =>
    revert hlook
    cases q with
    | adding => exact fun _ => trivial
    | found => exact fun _ => trivial
    | missing => exact fun _ => trivial
    | _ => exact fun hlook => absurd hlook id
  | created _ hid huuid hlock hfree hone hls =>
    refine ⟨⟨hlock, by omega, fun x hx => ?_⟩, hone⟩
    rw [hls] at hx
    exact ⟨hid ▸ Nat.ne_of_lt (h.tables.idsOld x hx), hfree x hx⟩
  | allocated _ hx hl hlock hls =>
    exact ⟨hlock, _, hls ▸ hx, by rw [hl], by rw [hl], by rw [hl]⟩
  | allocatedNew hc hkey huuid hls =>
    have hok := h.callOk c
    rw [hc] at hok
    refine ⟨⟨?_, huuid ▸ hok.1.old, hls ▸ hok.1.absent⟩, by simp only [hok.2]⟩
    rw [hkey]
    exact hok.1.keyLock
  | @checked request attempt l isNew hc hnone hlock hkey huuid hls hrs =>
    have hok := h.callOk c
    rw [hc] at hok
    -- a new lineage is held by its key's lock, a stored one by the lock on its row
    cases isNew with
    | true =>
      refine ⟨⟨?_, huuid ▸ hok.1.old, hls ▸ hok.1.absent⟩, hok.2⟩
      rw [hkey]
      exact hok.1.keyLock
    | false =>
      refine ⟨⟨?_, hls ▸ hok.row⟩, fun r hr => hnone r (hrs ▸ hr)⟩
      rw [hlock]
      exact hok.lock
  | deleting => trivial
  | locked => trivial
  | planned => trivial
  | ended hreq hrec =>
    revert hreq hrec
    cases q with
    | created => exact fun hreq => by cases hreq
    | allocated => exact fun hreq => by cases hreq
    | checked => exact fun hreq => by cases hreq
    | _ => exact fun _ _ => trivial

/-- A call that has inserted a lineage has just drawn its identifier, or had
    drawn it before the step. -/
theorem pending_before (hq : After dialect s s' c q) (hl : q.pending = some l) :
    (∃ l₀, (s.call c).pending = some l₀ ∧ l₀.id = l.id) ∨ l.id = s.nextUuid := by
  cases hq with
  | looking hlook =>
    revert hlook hl
    cases q with
    | adding => exact fun hl => by cases hl
    | found => exact fun hl => by cases hl
    | missing => exact fun hl => by cases hl
    | _ => exact fun _ hlook => absurd hlook id
  | created _ hid =>
    cases hl
    exact .inr hid
  | allocatedNew hc =>
    rw [← Option.some.inj hl, hc]
    exact .inl ⟨_, rfl, rfl⟩
  | @checked request attempt l₀ isNew hc =>
    rw [hc]
    cases isNew with
    | true => exact .inl ⟨l, hl, rfl⟩
    | false => cases hl
  | ended hreq =>
    revert hreq hl
    cases q with
    | created => exact fun _ hreq => by cases hreq
    | allocated => exact fun _ hreq => by cases hreq
    | checked => exact fun _ hreq => by cases hreq
    | _ => exact fun hl => by cases hl
  | _ => cases hl

theorem step_consistent {a : Action} (h : Consistent s) (hstep : step dialect s a = some s') :
    Consistent s' := by
  have hf := step_frame hstep
  have he := step_effect hstep
  refine ⟨tables_effect h hf he, fun c => ?_, fun c c' l l' hl hl' e => ?_⟩
  · by_cases hc : c = a.caller
    · exact hc ▸ callOk_self h (step_after hstep)
    · exact callOk_other h hf he hc
  · -- A freshly drawn identifier is not one that another call already has.
    have hold : ∀ d m, d ≠ a.caller → (s'.call d).pending = some m →
        (s.call d).pending = some m ∧ m.id < s.nextUuid := by
      intro d m hd hm
      rw [hf.call d hd] at hm
      exact ⟨hm, (h.of_pending hm).old⟩
    by_cases hc : c = a.caller
    · by_cases hc' : c' = a.caller
      · rw [hc, hc']
      · rcases hold c' l' hc' hl' with ⟨hp', hlt⟩
        rcases pending_before (step_after hstep) (hc ▸ hl) with ⟨l₀, hp, hid⟩ | hid
        · exact (h.pending _ c' l₀ l' hp hp' (hid.trans e)).symm ▸ hc
        · omega
    · rcases hold c l hc hl with ⟨hp, hlt⟩
      by_cases hc' : c' = a.caller
      · rcases pending_before (step_after hstep) (hc' ▸ hl') with ⟨l₀, hp', hid⟩ | hid
        · exact (h.pending c _ l l₀ hp hp' (e.trans hid.symm)).trans hc'.symm
        · omega
      · exact h.pending c c' l l' hp (hold c' l' hc' hl').1 e

theorem consistent_of_reachable (hr : (transactions dialect).Reachable s) : Consistent s :=
  StepSystem.reachableBy_invariant (I := Consistent)
    (fun s (hs : s = initial) => hs ▸ consistent_initial)
    (fun _ _ _ h _ hstep => step_consistent h hstep) hr

end Preservation

end Lineage

end Partha
