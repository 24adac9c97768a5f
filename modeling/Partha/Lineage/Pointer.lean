import Partha.Lineage.Allocation

/-!
# The Latest Pointer

`latest_repository_id` names the member with the highest sequence, or nothing
when there is no member. An import keeps it so by pointing at its own record,
whose sequence is above all others. A deletion reads the lineage and its
members, decides on a pointer, and writes it later.

The decision is right when the rows it was made on are still the rows at the
commit. `PlanCurrent` says that the pointer about to be written is the one the
decision gives on the rows of the moment. On PostgreSQL it always is, because
the read took the lock on the lineage row: `planCurrent_postgresql`. On SQLite
the read takes no lock, an import can commit in between, and the deletion then
clears or moves back the pointer of a lineage that has a newer member:
`pointer_lost`. The foreign key on the pointer does not see this, since a null
pointer and an older member are both acceptable to it.

## Main definitions

* `IsLatest`: The member with the highest sequence.
* `Pointed`: Every pointer names the latest member, or nothing.
* `PlanCurrent`: A step that does not commit an overtaken decision.
* `Issued`: Which calls may still use which identifiers.
* `Serialised`: A deletion that holds the lock has read current rows.

## Theorems

* `nextLatest_some`, `nextLatest_none`: What the query of a deletion returns.
* `step_pointed`: A step that commits no overtaken decision keeps the pointers.
* `step_issued`, `step_serialised`: The invariants of the locked read.
* `planCurrent_postgresql`: On PostgreSQL no decision is overtaken.
* `lineages_hold`: The lineage invariant, with the pointer in the runs where no
  deletion is overtaken.
* `pointer_lost`: Without the condition the pointer is lost on SQLite.
-/

namespace Partha

namespace Lineage

open List

variable {dialect : Dialect}

section Pointers

/-- `m` is the member of lineage `lineageId` with the highest sequence. -/
def IsLatest (repositories : List RepositoryRecord) (lineageId m : Nat) : Prop :=
  ∃ r ∈ repositories, r.id = m ∧ r.lineageId = some lineageId ∧
    ∀ r' ∈ repositories, r'.lineageId = some lineageId → r'.sequence.getD 0 ≤ r.sequence.getD 0

/-- The pointer of `l` names its latest member, and nothing when it has none. -/
structure PointedAt (repositories : List RepositoryRecord) (l : RepositoryLineage) : Prop where
  latest : ∀ m, l.latestRepositoryId = some m → IsLatest repositories l.id m
  empty : l.latestRepositoryId = none ↔ ∀ r ∈ repositories, r.lineageId ≠ some l.id

def Pointed (s : State) : Prop :=
  ∀ l ∈ s.lineages, PointedAt s.repositories l

/-- A deletion whose commit the database accepts writes the pointer that its
    decision gives on the rows committed now. -/
def PlanCurrent (s : State) : Action → Prop
  | .commitDelete c => ∀ record lineageId latest, s.call c = .planned record lineageId latest →
      latestIsMember (repointedLineages s.lineages lineageId latest)
        (s.repositories.filter (fun r => r.id ≠ record.id)) = true →
      ∀ l ∈ s.lineages, l.id = lineageId →
        latest.getD l.latestRepositoryId =
          (plan s.repositories l record).getD l.latestRepositoryId
  | _ => True

variable {repositories : List RepositoryRecord} {lineageId repositoryId : Nat}
  {l : RepositoryLineage} {record : RepositoryRecord} {lineages : List RepositoryLineage}
  {s s' : State}

/-- The rows the query of a deletion ranges over. -/
theorem mem_candidates {r : RepositoryRecord} :
    r ∈ repositories.filter (fun r => r.lineageId = some lineageId ∧ r.id ≠ repositoryId) ↔
      r ∈ repositories.filter (fun r => r.id ≠ repositoryId) ∧ r.lineageId = some lineageId := by
  simp only [ne_eq, Bool.decide_and, decide_not, mem_filter, Bool.and_eq_true,
    decide_eq_true_eq, Bool.not_eq_eq_eq_not, Bool.not_true, decide_eq_false_iff_not]
  tauto

theorem nextLatest_some {m : Nat} (h : nextLatest repositories lineageId repositoryId = some m) :
    IsLatest (repositories.filter (fun r => r.id ≠ repositoryId)) lineageId m := by
  rcases Option.map_eq_some_iff.mp h with ⟨r, hr, hid⟩
  rcases mem_candidates.mp (argmax_mem hr) with ⟨hmem, hm⟩
  exact ⟨r, hmem, hid, hm, fun r' hr' hm' =>
    le_of_mem_argmax (mem_candidates.mpr ⟨hr', hm'⟩) hr⟩

theorem nextLatest_none :
    nextLatest repositories lineageId repositoryId = none ↔
      ∀ r ∈ repositories.filter (fun r => r.id ≠ repositoryId), r.lineageId ≠ some lineageId := by
  rw [nextLatest, Option.map_eq_none_iff, argmax_eq_none, eq_nil_iff_forall_not_mem]
  constructor
  · exact fun h r hr hm => h r (mem_candidates.mpr ⟨hr, hm⟩)
  · exact fun h r hr => h r (mem_candidates.mp hr).1 (mem_candidates.mp hr).2

/-- A new row that is not a member of the lineage does not matter to it. -/
theorem pointedAt_append (h : PointedAt repositories l) (hm : record.lineageId ≠ some l.id) :
    PointedAt (repositories ++ [record]) l := by
  have hback : ∀ r ∈ repositories ++ [record], r.lineageId = some l.id → r ∈ repositories := by
    intro r hr hl
    rcases mem_append.mp hr with hr | hr
    · exact hr
    · rw [mem_singleton.mp hr] at hl
      exact absurd hl hm
  constructor
  · intro m hlatest
    rcases h.latest m hlatest with ⟨r, hr, hid, hl, hmax⟩
    exact ⟨r, mem_append_left _ hr, hid, hl, fun r' hr' hl' => hmax r' (hback r' hr' hl') hl'⟩
  · rw [h.empty]
    constructor
    · exact fun hnone r hr hl => hnone r (hback r hr hl) hl
    · exact fun hnone r hr => hnone r (mem_append_left _ hr)

/-- A row with the highest sequence becomes the latest. -/
theorem pointedAt_new (hm : record.lineageId = some l.id)
    (hl : l.latestRepositoryId = some record.id)
    (hmax : ∀ r ∈ repositories, r.lineageId = some l.id →
      r.sequence.getD 0 ≤ record.sequence.getD 0) : PointedAt (repositories ++ [record]) l := by
  have hmem : record ∈ repositories ++ [record] :=
    mem_append_right _ (mem_singleton.mpr rfl)
  constructor
  · intro m hlatest
    rw [hl, Option.some.injEq] at hlatest
    refine ⟨record, hmem, hlatest, hm, fun r hr hrl => ?_⟩
    rcases mem_append.mp hr with hr | hr
    · exact hmax r hr hrl
    · rw [mem_singleton.mp hr]
  · rw [hl]
    constructor
    · exact fun h => by cases h
    · exact fun h => absurd hm (h record hmem)

/-- Deleting a repository that the pointer does not name leaves the latest
    member where it is. -/
theorem pointedAt_filter (h : PointedAt repositories l)
    (hne : l.latestRepositoryId ≠ some repositoryId) :
    PointedAt (repositories.filter (fun r => r.id ≠ repositoryId)) l := by
  have hkept : ∀ m, l.latestRepositoryId = some m →
      IsLatest (repositories.filter (fun r => r.id ≠ repositoryId)) l.id m := by
    intro m hlatest
    rcases h.latest m hlatest with ⟨r, hr, hid, hl, hmax⟩
    refine ⟨r, mem_filter.mpr ⟨hr, decide_eq_true ?_⟩, hid, hl,
      fun r' hr' hl' => hmax r' (mem_filter.mp hr').1 hl'⟩
    rintro e
    exact hne (hlatest.trans (congrArg some (hid.symm.trans e)))
  refine ⟨hkept, ?_⟩
  constructor
  · exact fun hnone r hr => h.empty.mp hnone r (mem_filter.mp hr).1
  · intro hnone
    cases hlatest : l.latestRepositoryId with
    | none => rfl
    | some m =>
      rcases hkept m hlatest with ⟨r, hr, _, hl, _⟩
      exact absurd hl (hnone r hr)

/-- The pointer a deletion decides on is right for the rows it leaves. -/
theorem pointedAt_plan (h : PointedAt repositories l) (record : RepositoryRecord) :
    PointedAt (repositories.filter (fun r => r.id ≠ record.id))
      (l.repoint ((plan repositories l record).getD l.latestRepositoryId)) := by
  unfold plan
  split
  · simp only [Option.getD_some]
    exact ⟨fun m hm => nextLatest_some hm, nextLatest_none⟩
  · rename_i hne
    exact pointedAt_filter h hne

theorem latestIsMember_iff :
    latestIsMember lineages repositories = true ↔ ∀ l ∈ lineages, ∀ m,
      l.latestRepositoryId = some m → ∃ r ∈ repositories, r.id = m ∧ r.lineageId = some l.id := by
  simp only [latestIsMember, all_eq_true]
  refine forall_congr' (fun l => forall_congr' (fun _ => ?_))
  cases l.latestRepositoryId with
  | none => simp
  | some m => simp

/-- A row that a commit does not repoint is still right, because the foreign
    key would have refused the deletion of the repository it names. -/
theorem pointedAt_unwritten (hp : Pointed s)
    (hmember : latestIsMember lineages
      (s.repositories.filter (fun r => r.id ≠ repositoryId)) = true)
    (hl : l ∈ s.lineages) (hl' : l ∈ lineages) :
    PointedAt (s.repositories.filter (fun r => r.id ≠ repositoryId)) l := by
  refine pointedAt_filter (hp l hl) (fun e => ?_)
  rcases latestIsMember_iff.mp hmember l hl' repositoryId e with ⟨r, hr, hid, _⟩
  exact absurd hid (by simpa using (mem_filter.mp hr).2)

theorem pointed_member (h : Consistent s) (hp : Pointed s) {c : Nat} {request : ImportRequest}
    {attempt : Nat} {isNew : Bool} (hc : s.call c = .checked request attempt l isNew)
    (hrecord : record = request.record (some l.id) (some (l.nextSequence - 1)))
    (hls : s'.lineages = pointedLineages s l isNew record.id)
    (hrs : s'.repositories = s.repositories ++ [record]) : Pointed s' := by
  have hm : record.lineageId = some l.id := by
    rw [hrecord]
    rfl
  -- No committed member of the lineage has a sequence as high as the new one.
  have hmax : ∀ r ∈ s.repositories, r.lineageId = some l.id →
      r.sequence.getD 0 ≤ record.sequence.getD 0 := by
    intro r hr hrl
    rcases h.tables.sequences r hr _ hrl with ⟨q, hq, hmem⟩
    have hlt := sequence_new h hc _ hmem rfl
    rw [hq, hrecord]
    exact Nat.le_of_lt hlt
  intro x' hx'
  rw [hls] at hx'
  rw [hrs]
  cases isNew with
  | true =>
    rcases mem_append.mp hx' with hx | hx
    · refine pointedAt_append (hp x' hx) (fun e => ?_)
      rw [hm, Option.some.injEq] at e
      exact ((h.of_checkedNew hc).1.absent x' hx).1 e.symm
    · rw [mem_singleton.mp hx]
      exact pointedAt_new hm rfl hmax
  | false =>
    rcases Rows.mem_updateWhere.mp hx' with ⟨hx, hne⟩ | ⟨x, hx, hid, rfl⟩
    · refine pointedAt_append (hp x' hx) (fun e => ?_)
      rw [hm, Option.some.injEq] at e
      exact of_decide_eq_false hne e.symm
    · have hid' : x.id = l.id := of_decide_eq_true hid
      refine pointedAt_new (hm.trans (congrArg some hid'.symm)) rfl (fun r hr hrl => ?_)
      exact hmax r hr (hrl.trans (congrArg some hid'))

theorem pointed_deletion (hp : Pointed s) {latest : Option (Option Nat)}
    (hls : s'.lineages = repointedLineages s.lineages lineageId latest)
    (hrs : s'.repositories = s.repositories.filter (fun r => r.id ≠ record.id))
    (hmember : latestIsMember s'.lineages s'.repositories = true)
    (hplan : ∀ l ∈ s.lineages, l.id = lineageId → latest ≠ none →
      latest.getD l.latestRepositoryId =
        (plan s.repositories l record).getD l.latestRepositoryId) : Pointed s' := by
  intro x' hx'
  rw [hrs] at hmember ⊢
  have hrow := hx'
  rw [hls] at hrow
  cases latest with
  | none => exact pointedAt_unwritten hp hmember hrow hx'
  | some m =>
    rcases Rows.mem_updateWhere.mp hrow with ⟨hx, _⟩ | ⟨x, hx, hid, rfl⟩
    · exact pointedAt_unwritten hp hmember hx hx'
    · have hm := hplan x hx (of_decide_eq_true hid) (Option.some_ne_none _)
      rw [Option.getD_some] at hm
      rw [hm]
      exact pointedAt_plan (hp x hx) record

theorem step_pointed {a : Action} (h : Consistent s) (hp : Pointed s) (hok : PlanCurrent s a)
    (hstep : step dialect s a = some s') : Pointed s' := by
  have hcall : ∀ record lineageId latest, (s'.call a.caller) = .deleted record →
      s.call a.caller = .planned record lineageId latest → a = .commitDelete a.caller := by
    intro record lineageId latest hdel hplanned
    cases step_taken hstep with
    | commitDelete => rfl
    | commitDeleteStandalone => rfl
    | crash =>
      simp only [Action.caller, call_setCall] at hdel
      cases hdel
    | beginAdd hc | findLineage hc | createLineage hc | allocateExisting hc | allocateNew hc
    | checkDuplicate hc | commitAdd hc | beginDelete hc | lockLineage hc | planLatest hc =>
      simp only [Action.caller] at hplanned
      rw [hc] at hplanned
      cases hplanned
  cases step_effect hstep with
  | none hls hrs =>
    intro l hl
    rw [hrs]
    exact hp l (hls ▸ hl)
  | standalone record _ hnone _ _ hls hrs =>
    intro l hl
    rw [hrs]
    refine pointedAt_append (hp l (hls ▸ hl)) ?_
    rw [hnone]
    exact fun e => by cases e
  | member request attempt l isNew record _ hc hrecord _ hls hrs =>
    exact pointed_member h hp hc hrecord hls hrs
  | deletion record lineageId latest hdel hc hls hrs _ hmember =>
    refine pointed_deletion hp hls hrs hmember (fun l hl hid hsome => ?_)
    rcases hc with ⟨hplanned, _⟩ | ⟨_, _, hnone⟩
    · rw [hcall record lineageId latest hdel hplanned] at hok
      rw [hls, hrs] at hmember
      exact hok record lineageId latest hplanned hmember l hl hid
    · exact absurd hnone hsome

theorem pointed_of_reachable (hr : (transactions dialect).ReachableBy PlanCurrent s) :
    Consistent s ∧ Pointed s := by
  refine StepSystem.reachableBy_invariant (I := fun s => Consistent s ∧ Pointed s)
    (fun s₀ (h₀ : s₀ = initial) => ?_) (fun s a s' h hok hstep => ?_) hr
  · rw [h₀]
    exact ⟨consistent_initial, fun _ hl => absurd hl not_mem_nil⟩
  · exact ⟨step_consistent h.1 hstep, step_pointed h.1 h.2 hok hstep⟩

end Pointers

section Serialisation

/-- A request's identifier is nobody else's, and a record being deleted is the
    only row with its identifier. -/
structure Issued (s : State) : Prop where
  old : ∀ r ∈ s.repositories, r.id < s.nextUuid
  distinct : ∀ r ∈ s.repositories, ∀ r' ∈ s.repositories, r.id = r'.id → r = r'
  requestOld : ∀ c request, (s.call c).request = some request → request.repositoryId < s.nextUuid
  requestNew : ∀ c request, (s.call c).request = some request →
    ∀ r ∈ s.repositories, r.id ≠ request.repositoryId
  requestOwn : ∀ c c' request request', (s.call c).request = some request →
    (s.call c').request = some request' → request.repositoryId = request'.repositoryId → c = c'
  recordOld : ∀ c record, (s.call c).record = some record → record.id < s.nextUuid
  recordRow : ∀ c record, (s.call c).record = some record →
    ∀ r ∈ s.repositories, r.id = record.id → r = record
  recordOwn : ∀ c c' record request, (s.call c).record = some record →
    (s.call c').request = some request → record.id ≠ request.repositoryId

theorem issued_initial : Issued initial where
  old := fun _ h => absurd h not_mem_nil
  distinct := fun _ h => absurd h not_mem_nil
  requestOld := fun _ _ h => by cases h
  requestNew := fun _ _ h => by cases h
  requestOwn := fun _ _ _ _ h => by cases h
  recordOld := fun _ _ h => by cases h
  recordRow := fun _ _ h => by cases h
  recordOwn := fun _ _ _ _ h => by cases h

variable {s s' : State} {c : Nat} {q : Call} {a : Action}

/-- A call's request is the one it had, or has just been given an identifier. -/
theorem request_before (hq : After dialect s s' c q) {request : ImportRequest}
    (hr : q.request = some request) :
    (s.call c).request = some request ∨ (request.repositoryId = s.nextUuid ∧
      s.nextUuid < s'.nextUuid ∧ s'.repositories = s.repositories) := by
  cases hq with
  | begun hid hlt hrs =>
    cases hr
    exact .inr ⟨hid, hlt, hrs⟩
  | looking _ heq => exact .inl (heq ▸ hr)
  | created heq => exact .inl (heq.trans hr)
  | allocated heq => exact .inl (heq.trans hr)
  | allocatedNew hc => exact .inl (by rw [hc]; exact hr)
  | checked hc => exact .inl (by rw [hc]; exact hr)
  | deleting => cases hr
  | locked => cases hr
  | planned => cases hr
  | ended hnone =>
    rw [hnone] at hr
    cases hr

/-- A call deletes the record it was deleting, or one it has just read. -/
theorem record_before (hq : After dialect s s' c q) {record : RepositoryRecord}
    (hr : q.record = some record) :
    (s.call c).record = some record ∨
      (record ∈ s.repositories ∧ s'.repositories = s.repositories) := by
  cases hq with
  | looking hlook =>
    revert hlook hr
    cases q with
    | adding => exact fun hr => by cases hr
    | found => exact fun hr => by cases hr
    | missing => exact fun hr => by cases hr
    | _ => exact fun _ hlook => absurd hlook id
  | deleting hmem hrs =>
    cases hr
    exact .inr ⟨hmem, hrs⟩
  | locked hc => exact .inl (by rw [hc]; exact hr)
  | planned hc => exact .inl (by rw [hc]; exact hr)
  | ended _ hnone =>
    rw [hnone] at hr
    cases hr
  | _ => cases hr

/-- A new row has the identifier its call was given, and the call is over. -/
theorem repository_new (he : Effect c s s') {r : RepositoryRecord} (hr : r ∈ s'.repositories) :
    r ∈ s.repositories ∨
      (s'.call c = .added r ∧ (∀ x ∈ s'.repositories, x ∈ s.repositories ∨ x = r) ∧
        ((r.id = s.nextUuid ∧ s.nextUuid < s'.nextUuid) ∨
          ∃ request, (s.call c).request = some request ∧ r.id = request.repositoryId)) := by
  have hlast : ∀ record, s'.repositories = s.repositories ++ [record] →
      ∀ x ∈ s'.repositories, x ∈ s.repositories ∨ x = record := by
    intro record hrs x hx
    rw [hrs] at hx
    rcases mem_append.mp hx with hx | hx
    · exact .inl hx
    · exact .inr (mem_singleton.mp hx)
  cases he with
  | none _ hrs => exact .inl (hrs ▸ hr)
  | standalone record hadd _ hid hlt _ hrs =>
    rcases hlast record hrs r hr with hr | rfl
    · exact .inl hr
    · exact .inr ⟨hadd, hlast _ hrs, .inl ⟨hid, hlt⟩⟩
  | member request attempt l isNew record hadd hc hrecord _ _ hrs =>
    rcases hlast record hrs r hr with hr | rfl
    · exact .inl hr
    · exact .inr ⟨hadd, hlast _ hrs, .inr ⟨request, by rw [hc]; rfl, by rw [hrecord]; rfl⟩⟩
  | deletion record lineageId latest _ _ _ hrs =>
    rw [hrs] at hr
    exact .inl (mem_filter.mp hr).1

theorem step_issued (h : Issued s) (hstep : step dialect s a = some s') : Issued s' := by
  have hf := step_frame hstep
  have he := step_effect hstep
  have hafter := step_after hstep
  -- Every request and every record of a call is an old one or was just made.
  have hreq : ∀ c request, (s'.call c).request = some request →
      (s.call c).request = some request ∨ (c = a.caller ∧ request.repositoryId = s.nextUuid ∧
        s.nextUuid < s'.nextUuid ∧ s'.repositories = s.repositories) := by
    intro c request hr
    by_cases hc : c = a.caller
    · subst hc
      rcases request_before hafter hr with hold | hnew
      · exact .inl hold
      · exact .inr ⟨rfl, hnew⟩
    · exact .inl (hf.call c hc ▸ hr)
  have hrec : ∀ c record, (s'.call c).record = some record →
      (s.call c).record = some record ∨
        (record ∈ s.repositories ∧ s'.repositories = s.repositories) := by
    intro c record hr
    by_cases hc : c = a.caller
    · subst hc
      exact record_before hafter hr
    · exact .inl (hf.call c hc ▸ hr)
  -- The call that has just added a row is not importing any more.
  have hover : ∀ r c request, s'.call a.caller = .added r → (s'.call c).request = some request →
      c ≠ a.caller ∧ (s.call c).request = some request := by
    intro r c request hadd hr
    have hc : c ≠ a.caller := by
      rintro rfl
      rw [hadd] at hr
      cases hr
    exact ⟨hc, hf.call c hc ▸ hr⟩
  have hmono := hf.uuid
  have hrecOld : ∀ c record, (s'.call c).record = some record → record.id < s.nextUuid := by
    intro c record hr
    rcases hrec c record hr with hold | ⟨hmem, _⟩
    · exact h.recordOld c record hold
    · exact h.old record hmem
  constructor
  · intro r hr
    rcases repository_new he hr with hr | ⟨_, _, ⟨hid, hlt⟩ | ⟨request, hreq, hid⟩⟩
    · exact Nat.lt_of_lt_of_le (h.old r hr) hmono
    · omega
    · have := h.requestOld _ _ hreq
      omega
  · have hnew : ∀ r ∈ s'.repositories, ∀ r' ∈ s.repositories, r.id = r'.id → r = r' := by
      intro r hr r' hr' e
      rcases repository_new he hr with hr | ⟨_, _, ⟨hid, _⟩ | ⟨request, hreq, hid⟩⟩
      · exact h.distinct r hr r' hr' e
      · have := h.old r' hr'
        omega
      · exact absurd (e.symm.trans hid) (h.requestNew _ _ hreq r' hr')
    intro r hr r' hr' e
    rcases repository_new he hr' with hr'' | ⟨_, hlast, _⟩
    · exact hnew r hr r' hr'' e
    · rcases hlast r hr with hold | hrr
      · exact (hnew r' hr' r hold e.symm).symm
      · exact hrr
  · intro c request hr
    rcases hreq c request hr with hold | ⟨_, hid, hlt, _⟩
    · exact Nat.lt_of_lt_of_le (h.requestOld c request hold) hmono
    · omega
  · intro c request hr r hmem e
    rcases repository_new he hmem with hmem' | ⟨hadd, _, hid⟩
    · rcases hreq c request hr with hold | ⟨_, hid, _, _⟩
      · exact h.requestNew c request hold r hmem' e
      · have := h.old r hmem'
        omega
    · rcases hover r c request hadd hr with ⟨hc, hold⟩
      rcases hid with ⟨hid, _⟩ | ⟨request', hr', hid⟩
      · have := h.requestOld c request hold
        omega
      · exact hc (h.requestOwn c _ request request' hold hr' (e.symm.trans hid))
  · intro c c' request request' hr hr' e
    rcases hreq c request hr with hold | ⟨hc, hid, _⟩
    · rcases hreq c' request' hr' with hold' | ⟨_, hid', _⟩
      · exact h.requestOwn c c' request request' hold hold' e
      · have := h.requestOld c request hold
        omega
    · rcases hreq c' request' hr' with hold' | ⟨hc', _, _⟩
      · have := h.requestOld c' request' hold'
        omega
      · rw [hc, hc']
  · exact fun c record hr => Nat.lt_of_lt_of_le (hrecOld c record hr) hmono
  · intro c record hr r hmem e
    rcases hrec c record hr with hold | ⟨hrow, hrs⟩
    · rcases repository_new he hmem with hmem' | ⟨_, _, ⟨hid, _⟩ | ⟨request, hreq, hid⟩⟩
      · exact h.recordRow c record hold r hmem' e
      · have := h.recordOld c record hold
        omega
      · exact absurd (e.symm.trans hid) (h.recordOwn c _ record request hold hreq)
    · exact h.distinct r (hrs ▸ hmem) record hrow e
  · intro c c' record request hr hr' e
    rcases hreq c' request hr' with hold' | ⟨_, hid, _⟩
    · rcases hrec c record hr with hold | ⟨hrow, _⟩
      · exact h.recordOwn c c' record request hold hold' e
      · exact h.requestNew c' request hold' record hrow e
    · have := hrecOld c record hr
      omega

/-- A deletion that has locked its lineage has read the current row of it, and
    has decided on the current rows. -/
def SerialisedCall (s : State) (c : Nat) : Call → Prop
  | .locked record l => record.lineageId = some l.id ∧ s.lock l.id = some c ∧ l ∈ s.lineages
  | .planned record lineageId latest => record.lineageId = some lineageId ∧
      s.lock lineageId = some c ∧
        ∃ l ∈ s.lineages, l.id = lineageId ∧ latest = plan s.repositories l record
  | _ => True

def Serialised (s : State) : Prop :=
  ∀ c, SerialisedCall s c (s.call c)

/-- A decision depends on the members of the lineage and on nothing else. -/
theorem plan_congr {repositories repositories' : List RepositoryRecord} (l : RepositoryLineage)
    (record : RepositoryRecord)
    (h : repositories'.filter (fun r => r.lineageId = some l.id) =
      repositories.filter (fun r => r.lineageId = some l.id)) :
    plan repositories' l record = plan repositories l record := by
  have hsplit : ∀ rows : List RepositoryRecord,
      rows.filter (fun r => r.lineageId = some l.id ∧ r.id ≠ record.id) =
        (rows.filter (fun r => r.lineageId = some l.id)).filter (fun r => r.id ≠ record.id) := by
    intro rows
    rw [filter_filter]
    refine filter_congr (fun r _ => ?_)
    simp [Bool.and_comm]
  simp only [plan, nextLatest, hsplit, h]

/-- The members of a lineage stay what they are while another call holds its
    lock, if every deletion holds the lock of its own lineage. -/
theorem members_locked (h : Consistent s) (hi : Issued s) (hs : Serialised s) {c' : Nat}
    (he : Effect c s s') (hne : c' ≠ c) {l : RepositoryLineage} (hl : l ∈ s.lineages)
    (hlock : s.lock l.id = some c') :
    s'.repositories.filter (fun r => r.lineageId = some l.id) =
      s.repositories.filter (fun r => r.lineageId = some l.id) := by
  have happend : ∀ record, record.lineageId ≠ some l.id →
      s'.repositories = s.repositories ++ [record] →
        s'.repositories.filter (fun r => r.lineageId = some l.id) =
          s.repositories.filter (fun r => r.lineageId = some l.id) := by
    intro record hrec hrs
    have hout : [record].filter (fun r => r.lineageId = some l.id) = [] :=
      filter_eq_nil_iff.mpr (fun r hr => by
        rw [mem_singleton.mp hr, decide_eq_true_eq]
        exact hrec)
    rw [hrs, filter_append, hout, append_nil]
  cases he with
  | none _ hrs => rw [hrs]
  | standalone record _ hnone _ _ _ hrs =>
    refine happend record ?_ hrs
    rw [hnone]
    exact fun e => by cases e
  | member request attempt x isNew record _ hc hrecord _ _ hrs =>
    refine happend record (fun e => ?_) hrs
    rw [hrecord, ImportRequest.record, Option.some.injEq] at e
    cases isNew with
    | true => exact ((h.of_checkedNew hc).1.absent l hl).1 e.symm
    | false =>
      rw [← e, (h.of_checked hc).1.lock, Option.some.injEq] at hlock
      exact hne hlock.symm
  | deletion record lineageId latest _ hc _ hrs =>
    rw [hrs, filter_filter]
    refine filter_congr (fun r hr => ?_)
    -- The deleted row is the record that was read, and it is in no lineage
    -- or in the one its call has locked.
    by_cases hm : r.lineageId = some l.id
    · have hid : r.id ≠ record.id := by
        intro e
        rcases hc with ⟨hplanned, _⟩ | ⟨hdeleting, hnone, _⟩
        · have hrow := hi.recordRow c record (by rw [hplanned]; rfl) r hr e
          have hser := hs c
          rw [hplanned] at hser
          rw [hrow, hser.1, Option.some.injEq] at hm
          rw [← hm, hser.2.1, Option.some.injEq] at hlock
          exact hne hlock.symm
        · have hrow := hi.recordRow c record (by rw [hdeleting]; rfl) r hr e
          rw [hrow, hnone] at hm
          cases hm
      simp [hm, hid]
    · simp [hm]

theorem step_serialised (h : Consistent s) (hi : Issued s) (hs : Serialised s)
    (hstep : step .postgresql s a = some s') : Serialised s' := by
  have hf := step_frame hstep
  have he := step_effect hstep
  intro c
  by_cases hc : c = a.caller
  · subst hc
    have hself := hs a.caller
    cases hq : s'.call a.caller with
    | locked record l =>
      have hafter := step_after hstep
      rw [hq] at hafter
      cases hafter with
      | locked hcall hm hl hls hrs hlock => exact ⟨hm, hlock rfl, hls ▸ hl⟩
      | looking hlook => exact absurd hlook id
      | ended _ hnone => cases hnone
    | planned record lineageId latest =>
      have hafter := step_after hstep
      rw [hq] at hafter
      cases hafter with
      | @planned _ l hcall hlock hls hrs =>
        rw [hcall] at hself
        refine ⟨hself.1, ?_, l, hls ▸ hself.2.2, rfl, by rw [hrs]⟩
        rw [hlock]
        exact hself.2.1
      | looking hlook => exact absurd hlook id
      | ended _ hnone => cases hnone
    | _ => trivial
  · rw [hf.call c hc]
    have hother := hs c
    revert hother
    cases s.call c with
    | locked record l =>
      exact fun ⟨hm, hlock, hl⟩ =>
        ⟨hm, hf.lock _ _ hc hlock, lineage_locked h he hc hl hlock⟩
    | planned record lineageId latest =>
      rintro ⟨hm, hlock, l, hl, rfl, rfl⟩
      refine ⟨hm, hf.lock _ _ hc hlock, l, lineage_locked h he hc hl hlock, rfl, ?_⟩
      exact (plan_congr l record (members_locked h hi hs he hc hl hlock)).symm
    | _ => exact fun _ => trivial

/-- On PostgreSQL the lock of the read makes every decision current. -/
theorem planCurrent_postgresql (h : Consistent s) (hs : Serialised s) (a : Action) :
    PlanCurrent s a := by
  cases a with
  | commitDelete c =>
    intro record lineageId latest hplanned _ l hl hid
    have hser := hs c
    rw [hplanned] at hser
    rcases hser with ⟨_, _, l', hl', hid', hlatest⟩
    rw [Rows.eq_of_key_eq h.tables.idsNodup hl hl' (hid.trans hid'.symm), hlatest]
  | _ => trivial

theorem pointed_postgresql (hr : (transactions .postgresql).Reachable s) : Pointed s := by
  have hall : (Consistent s ∧ Pointed s) ∧ Issued s ∧ Serialised s := by
    refine StepSystem.reachableBy_invariant
      (I := fun s => (Consistent s ∧ Pointed s) ∧ Issued s ∧ Serialised s)
      (fun s₀ (h₀ : s₀ = initial) => ?_) (fun s a s' h _ hstep => ?_) hr
    · rw [h₀]
      exact ⟨⟨consistent_initial, fun _ hl => absurd hl not_mem_nil⟩, issued_initial,
        fun _ => trivial⟩
    · rcases h with ⟨⟨hc, hp⟩, hi, hs⟩
      exact ⟨⟨step_consistent hc hstep, step_pointed hc hp (planCurrent_postgresql hc hs a) hstep⟩,
        step_issued hi hstep, step_serialised hc hi hs hstep⟩
  exact hall.1.2

end Serialisation

section Invariants

/-- No committed row changes. -/
def Untouched (s s' : State) : Prop :=
  s'.lineages = s.lineages ∧ s'.repositories = s.repositories ∧ s'.history = s.history

variable {s t : State}

/-- A call that has committed stays where it is. -/
theorem committed_forever {c : Nat} {q : Call} (hq : (∃ r, q = .added r) ∨ ∃ r, q = .deleted r)
    (hp : (transactions dialect).Path (fun _ _ => True) s t) (hc : s.call c = q) :
    t.call c = q := by
  refine StepSystem.path_invariant (I := fun s => s.call c = q) (fun u a u' hu _ hstep => ?_) hc hp
  by_cases hca : c = a.caller
  · subst hca
    rcases hq with ⟨r, rfl⟩ | ⟨r, rfl⟩
    · cases a <;> simp only [Action.caller] at hu <;>
        simp only [transactions, step, hu, reduceCtorEq] at hstep
    · cases a <;> simp only [Action.caller] at hu <;>
        simp only [transactions, step, hu, reduceCtorEq] at hstep
  · exact ((step_frame hstep).call c hca).trans hu

/-- A step of a call that raises `LineageDuplicateRevision` in the end has
    changed nothing. -/
theorem duplicate_untouched {s' : State} {a : Action} (hstep : step dialect s a = some s')
    (hp : (transactions dialect).Path (fun _ _ => True) s' t) {existing : RepositoryRecord}
    (hdup : t.call a.caller = .duplicate existing) : Untouched s s' := by
  have hnever : ∀ q, ((∃ r, q = .added r) ∨ ∃ r, q = .deleted r) → s'.call a.caller ≠ q := by
    intro q hq e
    rw [committed_forever hq hp e] at hdup
    rcases hq with ⟨r, rfl⟩ | ⟨r, rfl⟩ <;> cases hdup
  cases step_effect hstep with
  | none hls hrs hhs => exact ⟨hls, hrs, hhs⟩
  | standalone record hadd => exact absurd hadd (hnever _ (.inl ⟨_, rfl⟩))
  | member _ _ _ _ record hadd => exact absurd hadd (hnever _ (.inl ⟨_, rfl⟩))
  | deletion record _ _ hdel => exact absurd hdel (hnever _ (.inr ⟨_, rfl⟩))

/-- Allocations are never forgotten, so what holds of the history holds of all
    time, deletions included. -/
theorem history_prefix (hp : (transactions dialect).Path (fun _ _ => True) s t) :
    s.history <+: t.history := by
  refine StepSystem.path_rel (I := fun _ => True) (R := fun s t => s.history <+: t.history)
    (fun s => prefix_rfl) (fun _ _ _ => List.IsPrefix.trans) (fun _ _ _ _ _ _ => trivial)
    (fun s a s' _ _ hstep => ?_) trivial hp
  rcases history_effect (step_effect hstep) with hh | ⟨_, _, _, _, _, _, _, hh⟩
  · exact hh ▸ prefix_rfl
  · exact hh ▸ prefix_append _ _

/-- One lineage for each triple, members of the lineage's owner and of distinct
    revisions, sequences that were allocated once and in increasing order, and
    a counter above all of them. -/
structure WellFormed (s : State) : Prop where
  oneLineage : ∀ l ∈ s.lineages, ∀ l' ∈ s.lineages, l.key = l'.key → l = l'
  owner : ∀ r ∈ s.repositories, ∀ lineageId, r.lineageId = some lineageId →
    ∃ l ∈ s.lineages, l.id = lineageId ∧ l.ownerId = r.ownerId
  revisions : ∀ r ∈ s.repositories, ∀ r' ∈ s.repositories, ∀ lineageId,
    r.lineageId = some lineageId → r'.lineageId = some lineageId →
      r.revisionValue = r'.revisionValue → r = r'
  allocated : ∀ r ∈ s.repositories, ∀ lineageId, r.lineageId = some lineageId →
    ∃ q, r.sequence = some q ∧ ⟨lineageId, q, r.id⟩ ∈ s.history
  increasing : s.history.Pairwise (fun a b => a.lineageId = b.lineageId → a.sequence < b.sequence)
  nextSequence : ∀ a ∈ s.history, ∀ l ∈ s.lineages, l.id = a.lineageId →
    a.sequence < l.nextSequence

theorem wellFormed_of_reachable (hr : (transactions dialect).Reachable s) : WellFormed s := by
  have ht := (consistent_of_reachable hr).tables
  refine ⟨fun l hl l' hl' => Rows.eq_of_key_eq ht.keysNodup hl hl', ht.owner, ht.revisions,
    ht.sequences, ht.increasing, fun a ha l hl hid => ?_⟩
  rcases ht.bounded a ha with ⟨x, hx, hxid, hlt⟩
  rwa [Rows.eq_of_key_eq ht.idsNodup hl hx (hid.trans hxid.symm)]

/-- The lineage invariant holds in every interleaving on either dialect, but
    for the pointer, which needs that no deletion commits a decision that was
    overtaken. On PostgreSQL none ever is. -/
theorem lineages_hold (dialect : Dialect) :
    (∀ s, (transactions dialect).Reachable s → WellFormed s) ∧
      (∀ s t, (transactions dialect).Reachable s →
        (transactions dialect).Path (fun _ _ => True) s t → s.history <+: t.history) ∧
      (∀ s, (transactions dialect).ReachableBy PlanCurrent s → Pointed s) ∧
      (∀ s, (transactions .postgresql).Reachable s → Pointed s) ∧
      (∀ s a s' t existing, (transactions dialect).Reachable s → step dialect s a = some s' →
        (transactions dialect).Path (fun _ _ => True) s' t →
          t.call a.caller = .duplicate existing → Untouched s s') :=
  ⟨fun _ => wellFormed_of_reachable, fun _ _ _ => history_prefix,
    fun _ hr => (pointed_of_reachable hr).2, fun _ => pointed_postgresql,
    fun _ _ _ _ _ _ hstep hp hdup => duplicate_untouched hstep hp hdup⟩

/-- An import of revision `revision` into one and the same lineage. -/
def sampleRequest (revision : String) : ImportRequest :=
  { repositoryId := 0
    recordOwnerId := 7
    revisionValue := some revision
    ownerId := 7
    canonicalSourceKey := some "github.com/owner/name"
    canonicalBranch := some "main"
    displayName := "name" }

/-- A repository is imported, its deletion reads that it is the only member, a
    second revision is imported, and the deletion commits. -/
def overtaken : List Action :=
  [.beginAdd 0 (sampleRequest "a"), .findLineage 0, .createLineage 0, .allocateSequence 0,
    .checkDuplicate 0, .commitAdd 0, .beginDelete 1 0 7, .lockLineage 1, .planLatest 1,
    .beginAdd 2 (sampleRequest "b"), .findLineage 2, .allocateSequence 2, .checkDuplicate 2,
    .commitAdd 2, .commitDelete 1]

def overtakenState : State :=
  ((transactions .sqlite).exec initial overtaken).getD initial

/-- On SQLite the second import is left in a lineage without a pointer. -/
theorem pointer_lost : ¬ ∀ s, (transactions .sqlite).Reachable s → Pointed s := by
  intro h
  have hrun : (transactions .sqlite).exec initial overtaken = some overtakenState := rfl
  have hl : ∃ l ∈ overtakenState.lineages, l.latestRepositoryId = none ∧
      ∃ r ∈ overtakenState.repositories, r.lineageId = some l.id :=
    ⟨_, mem_singleton.mpr rfl, rfl, _, mem_singleton.mpr rfl, rfl⟩
  rcases hl with ⟨l, hmem, hnone, r, hr, hm⟩
  exact (h _ (StepSystem.reachable_of_exec rfl hrun) l hmem).empty.mp hnone r hr hm

end Invariants

end Lineage

end Partha
