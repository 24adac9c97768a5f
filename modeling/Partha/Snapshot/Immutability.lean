import Partha.Snapshot.Guard

/-!
# Completed Snapshots are Immutable

What flushes leave as it is.

A flush without anything that the guard takes for something else leaves every completed snapshot and
its facts as they are, or the guard raises. This is shown row by row. A row of a completed snapshot
is neither updated nor deleted, no row becomes one, and what goes along a foreign key is of the
snapshot of a deleted row. The state of another snapshot changes as it was registered. So a run of
such flushes, of registered transitions and of purges never changes a completed snapshot.

Three flushes that the guard takes for something else show why this has to be said: a fact moves out
of a completed snapshot, one is deleted while it is expired, and one gets a fact while the session
still has the state that it had before.

## Theorems

* `untouched_written`, `registered_written`: What a flush leaves as it is.
* `step_plain`, `step_registered`: What a step leaves as it is.
* `completed_immutable`: Completed snapshots do not change in any run of plain steps.
* `completed_rewritten`: The three flushes.
-/

namespace Partha

namespace SnapshotGuard

open Canonical Checked List

section Flushes

variable {S F : Type} {schema : Schema S F} {allowed : List Transition} {db after : Database S F}
  {s : Session S F}

/-- What a flush that goes through has written. -/
theorem written_eq_some (h : written schema db s = some after) :
    after.snapshots = (db.snapshots.filter fun r => !s.deletesSnapshot r.snapshotId).map
        s.writeSnapshot ++ s.newSnapshots ∧
      after.facts = ((db.facts.filter fun r => !s.deletesFact r).map s.writeFact ++
          s.newFacts.filterMap NewFact.row).filter (fun r =>
        !s.deletesSnapshot r.snapshotId && !schema.cascades (db.facts.filter s.deletesFact) r) ∧
      schema.consistent after = true := by
  unfold written at h
  dsimp only at h
  split at h
  · rename_i hpasses
    cases h
    exact ⟨rfl, rfl, (Bool.and_eq_true_iff.mp hpasses).2⟩
  · cases h

/-- A list keeps the elements of a kind if each of them is kept as it is, and no other one becomes
    one of them. -/
theorem filter_map_filter {α : Type} {p q : α → Bool} {f : α → α} {l : List α}
    (hkept : ∀ a ∈ l, q a = true → p a = true ∧ f a = a)
    (hother : ∀ a ∈ l, q a = false → q (f a) = false) :
    ((l.filter p).map f).filter q = l.filter q := by
  induction l with
  | nil => rfl
  | cons a l ih =>
    have hrest := ih (fun b hb => hkept b (mem_cons_of_mem a hb))
      (fun b hb => hother b (mem_cons_of_mem a hb))
    by_cases hq : q a = true
    · rcases hkept a mem_cons_self hq with ⟨hp, hf⟩
      rw [filter_cons, if_pos hp, map_cons, hf, filter_cons, if_pos hq, hrest,
        filter_cons, if_pos hq]
    · have hf := hother a mem_cons_self (Bool.eq_false_iff.mpr hq)
      have hright : (a :: l).filter q = l.filter q := by
        rw [filter_cons, if_neg hq]
      rw [hright, filter_cons]
      split
      · rw [map_cons, filter_cons, if_neg (by rw [hf]; exact Bool.false_ne_true), hrest]
      · exact hrest

section Kept

variable (hguard : guard allowed db s = .ok ()) (hplain : Plain allowed db s)
  (hdistinct : (db.snapshots.map SnapshotRow.snapshotId).Nodup)
include hguard hplain

variable {r : SnapshotRow S}

theorem deletesSnapshot_completed (hr : r ∈ db.snapshots) (hcompleted : r.state = completed) :
    s.deletesSnapshot r.snapshotId = false := by
  refine Bool.eq_false_iff.mpr (fun h => ?_)
  rcases any_eq_true.mp h with ⟨o, ho, hidentity⟩
  exact row_of_deletedSnapshot hguard hplain ho hr (of_decide_eq_true hidentity).symm hcompleted

theorem deletesFact_completed {r : FactRow F} (hr : r ∈ db.facts)
    (hstored : storedState db r.snapshotId = some completed) : s.deletesFact r = false := by
  refine Bool.eq_false_iff.mpr (fun h => ?_)
  rcases any_eq_true.mp h with ⟨f, hf, hof⟩
  exact row_of_deletedFact hguard hplain hf hr (of_decide_eq_true hof) hstored

theorem writeFact_completed {r : FactRow F} (hr : r ∈ db.facts)
    (hstored : storedState db r.snapshotId = some completed) : s.writeFact r = r := by
  unfold Session.writeFact
  cases hfind : s.dirtyFacts.find? fun f => f.IsOf r with
  | none => rfl
  | some f =>
    have hof := List.find?_some hfind
    exact absurd hstored (row_of_dirty hguard hplain (mem_of_find?_eq_some hfind) hr
      (of_decide_eq_true hof))

/-- No row becomes one of a completed snapshot. -/
theorem writeFact_other {r : FactRow F}
    (hstored : storedState db r.snapshotId ≠ some completed) :
    storedState db (s.writeFact r).snapshotId ≠ some completed := by
  unfold Session.writeFact
  cases hfind : s.dirtyFacts.find? fun f => f.IsOf r with
  | none => exact hstored
  | some f =>
    have hf := mem_of_find?_eq_some hfind
    change storedState db (f.snapshotId.written r.snapshotId) ≠ some completed
    cases hid : f.snapshotId with
    | unloaded => exact hstored
    | loaded owner => exact hstored
    | changed original owner =>
      rw [Attr.written]
      split
      · exact hstored
      · refine owner_of_dirty hguard hplain hf ?_
        rw [readOwner, hid]
        rfl

include hdistinct

theorem writeSnapshot_completed (hr : r ∈ db.snapshots) (hcompleted : r.state = completed) :
    s.writeSnapshot r = r := by
  unfold Session.writeSnapshot
  cases hfind : s.dirtySnapshots.find? fun o => o.identity = r.snapshotId with
  | none => rfl
  | some o =>
    have hidentity := List.find?_some hfind
    exact absurd hcompleted (row_of_dirtySnapshot hguard hplain hdistinct
      (mem_of_find?_eq_some hfind) hr (of_decide_eq_true hidentity).symm)

/-- A flush leaves the completed snapshots and their facts as they are. -/
theorem untouched_written (h : written schema db s = some after) : Untouched db after := by
  rcases written_eq_some h with ⟨hsnapshots, hfacts, -⟩
  intro r hr hcompleted
  have hdeletes := deletesSnapshot_completed hguard hplain hr hcompleted
  have hstored : storedState db r.snapshotId = some completed := by
    rw [storedState_row hdistinct hr, hcompleted]
  constructor
  · rw [hsnapshots]
    refine mem_append_left _ (mem_map.mpr ⟨r, mem_filter.mpr ⟨hr, ?_⟩,
      writeSnapshot_completed hguard hplain hdistinct hr hcompleted⟩)
    rw [hdeletes]
    rfl
  -- no fact of the snapshot is deleted, by itself or by a cascade
  · have hremain : ∀ q : FactRow F, (decide (q.snapshotId = r.snapshotId) &&
        (!s.deletesSnapshot q.snapshotId &&
          !schema.cascades (db.facts.filter s.deletesFact) q)) =
            decide (q.snapshotId = r.snapshotId) := by
      intro q
      by_cases hq : q.snapshotId = r.snapshotId
      · have hcascades : schema.cascades (db.facts.filter s.deletesFact) q = false := by
          refine Bool.eq_false_iff.mpr (fun hcascades => ?_)
          rcases schema.within hcascades with ⟨d, hd, hsame⟩
          rcases mem_filter.mp hd with ⟨hd, hdeleted⟩
          rw [deletesFact_completed hguard hplain hd (by rw [hsame, hq, hstored])] at hdeleted
          cases hdeleted
        rw [hcascades, hq, hdeletes]
        simp
      · rw [decide_eq_false hq, Bool.false_and]
    -- and no new fact is given to it
    have hnew : (s.newFacts.filterMap NewFact.row).filter
        (fun q => q.snapshotId = r.snapshotId) = [] := by
      refine filter_eq_nil_iff.mpr (fun q hq hsame => ?_)
      rcases mem_filterMap.mp hq with ⟨n, hn, hrow⟩
      rcases Option.map_eq_some_iff.mp hrow with ⟨owner, howner, rfl⟩
      refine owner_of_new hguard hplain hn howner ?_
      rw [show owner = r.snapshotId from of_decide_eq_true hsame, hstored]
    rw [Database.factsOf, hfacts, filter_filter, filter_congr (fun q _ => hremain q),
      filter_append, hnew, append_nil]
    -- nor is one of its facts changed, or one of another snapshot moved into it
    refine filter_map_filter (fun q hq hsame => ?_) (fun q hq hother => ?_)
    · have hsnapshot : storedState db q.snapshotId = some completed := by
        rw [of_decide_eq_true hsame, hstored]
      rw [deletesFact_completed hguard hplain hq hsnapshot]
      exact ⟨rfl, writeFact_completed hguard hplain hq hsnapshot⟩
    · refine decide_eq_false (fun hsame => ?_)
      by_cases hsnapshot : storedState db q.snapshotId = some completed
      · rw [writeFact_completed hguard hplain hq hsnapshot] at hsame
        exact of_decide_eq_false hother hsame
      · exact writeFact_other hguard hplain hsnapshot (by rw [hsame, hstored])

/-- The state of a snapshot that keeps its key changes as it was registered. -/
theorem registered_writeSnapshot (hr : r ∈ db.snapshots)
    (hkey : (s.writeSnapshot r).snapshotId = r.snapshotId)
    (hstate : (s.writeSnapshot r).state ≠ r.state) :
    ⟨r.snapshotId, r.state, (s.writeSnapshot r).state⟩ ∈ allowed := by
  unfold Session.writeSnapshot at hkey hstate ⊢
  cases hfind : s.dirtySnapshots.find? fun o => o.identity = r.snapshotId with
  | none =>
    rw [hfind] at hstate
    exact absurd rfl hstate
  | some o =>
    rw [hfind] at hkey hstate
    dsimp only at hkey hstate ⊢
    have ho := mem_of_find?_eq_some hfind
    have hidentity := List.find?_some hfind
    have hid := (of_decide_eq_true hidentity).symm
    have hcheck := checkState_of_dirty hguard hdistinct ho hr hid
    have hpersisted : (persistedState o).or (storedState db (o.write r).snapshotId) =
        some r.state := by
      cases hstored : persistedState o with
      | none => rw [Option.none_or, hkey, storedState_row hdistinct hr]
      | some state =>
        rw [Option.some_or, hplain.transitions o ho r hr hid hstate state hstored]
    rw [hpersisted] at hcheck
    have hread : read (some r.state) o.state = .ok (o.write r).state := by
      change o.state.written r.state ≠ r.state at hstate
      change read (some r.state) o.state = .ok (o.state.written r.state)
      cases hattr : o.state with
      | unloaded => rfl
      | loaded state =>
        rw [hattr] at hstate
        exact absurd rfl hstate
      | changed original state =>
        rw [hattr, Attr.written] at hstate
        split at hstate
        · exact absurd rfl hstate
        · rename_i hne
          rw [Attr.written, if_neg hne]
          rfl
    have hallowed := (checkState_ok hcheck).2 _ hread hstate _ rfl
    rwa [hkey] at hallowed

/-- Whatever has the key of a snapshot after a flush is the snapshot, in a state that is registered
    or its own, unless the snapshot has given up its key. -/
theorem registered_written (h : written schema db s = some after) :
    Registered allowed db after := by
  rcases written_eq_some h with ⟨hsnapshots, -, hconsistent⟩
  intro r hr r' hr' hid hstate
  by_cases hgives : s.givesUp r = true
  · refine hplain.keys r hr hgives r' ?_ hid hstate
    rw [hsnapshots] at hr'
    rcases mem_append.mp hr' with hold | hnew
    · rcases mem_map.mp hold with ⟨q, hq, rfl⟩
      rcases mem_filter.mp hq with ⟨hq, hkept⟩
      by_cases hkey : (s.writeSnapshot q).snapshotId = q.snapshotId
      · have hsame : q = r := by
          refine inj_on_of_nodup_map hdistinct hq hr ?_
          rw [← hkey, hid]
        rw [hsame] at hkept hkey
        rw [Session.givesUp, hkey, bne_self_eq_false, Bool.or_false] at hgives
        rw [hgives] at hkept
        cases hkept
      · exact mem_append_right _ (mem_map.mpr ⟨q, mem_filter.mpr
          ⟨hq, bne_iff_ne.mpr hkey⟩, rfl⟩)
    · exact mem_append_left _ hnew
  · rw [Session.givesUp, Bool.or_eq_true, not_or, bne_iff_ne, ne_eq, not_not] at hgives
    have hmem : s.writeSnapshot r ∈ after.snapshots := by
      rw [hsnapshots]
      refine mem_append_left _ (mem_map.mpr ⟨r, mem_filter.mpr ⟨hr, ?_⟩, rfl⟩)
      rw [Bool.eq_false_iff.mpr hgives.1]
      rfl
    have hsame : r' = s.writeSnapshot r :=
      inj_on_of_nodup_map (schema.distinct hconsistent) hr' hmem (hid.trans hgives.2.symm)
    rw [hsame] at hstate ⊢
    exact registered_writeSnapshot hguard hplain hdistinct hr hgives.2 hstate

end Kept

end Flushes

section Runs

variable {S F : Type} {schema : Schema S F}

/-- The condition on the steps of a run. -/
def Plainly : Database S F → Action S F → Prop
  | db, .flush s => Plain [] db s
  | db, .commitTransition s transition => Plain [transition] db s
  | _, .purge _ => True

variable {allowed : List Transition} {db : Database S F} {s : Session S F} {a : Action S F}

theorem guarded_plain (hdistinct : (db.snapshots.map SnapshotRow.snapshotId).Nodup)
    (hplain : Plain allowed db s) : Guarded schema allowed db s := by
  intro after hwritten
  cases hguard : guard allowed db s with
  | error e => exact ⟨fun _ => ⟨e, rfl⟩, fun _ => ⟨e, rfl⟩⟩
  | ok u =>
    exact ⟨fun h => absurd (untouched_written hguard hplain hdistinct hwritten) h,
      fun h => absurd (registered_written hguard hplain hdistinct hwritten) h⟩

theorem untouched_refl (db : Database S F) : Untouched db db :=
  fun _ hr _ => ⟨hr, rfl⟩

theorem Untouched.trans {mid after : Database S F} (h : Untouched db mid)
    (h' : Untouched mid after) :
    Untouched db after := by
  intro r hr hcompleted
  rcases h r hr hcompleted with ⟨hmid, hfacts⟩
  rcases h' r hmid hcompleted with ⟨hafter, hfacts'⟩
  exact ⟨hafter, hfacts'.trans hfacts⟩

/-- A flush with a guard that is right about it. -/
theorem flush_guarded (h : Guarded schema allowed db s) :
    Untouched db (flush schema allowed db s) ∧
      (flush schema allowed db s = db ∨ schema.consistent (flush schema allowed db s) = true ∧
        Registered allowed db (flush schema allowed db s)) := by
  unfold flush
  cases hguard : guard allowed db s with
  | error e => exact ⟨untouched_refl db, .inl rfl⟩
  | ok u =>
    dsimp only
    cases hwritten : written schema db s with
    | none => exact ⟨untouched_refl db, .inl rfl⟩
    | some after =>
      rcases h after hwritten with ⟨huntouched, hregistered⟩
      rw [hguard] at huntouched hregistered
      have hpassed : ¬ ∃ e, (Except.ok u : Except SnapshotError Unit) = .error e := by
        rintro ⟨e, he⟩
        cases he
      exact ⟨not_not.mp fun hnot => hpassed (huntouched hnot), .inr
        ⟨(written_eq_some hwritten).2.2, not_not.mp fun hnot => hpassed (hregistered hnot)⟩⟩

/-- A purge takes the facts of a failed snapshot only. -/
theorem untouched_purge (hdistinct : (db.snapshots.map SnapshotRow.snapshotId).Nodup) (id : Str) :
    Untouched db (purgeSnapshotFacts db id) := by
  unfold purgeSnapshotFacts
  split
  · rename_i hfailed
    intro r hr hcompleted
    refine ⟨hr, ?_⟩
    have hother : id ≠ r.snapshotId := by
      intro hid
      rw [hid, storedState_row hdistinct hr, hcompleted] at hfailed
      exact absurd (Option.some.inj hfailed) (by decide)
    rw [Database.factsOf, filter_filter]
    refine filter_congr (fun q _ => ?_)
    by_cases hq : q.snapshotId = r.snapshotId
    · have hne : r.snapshotId ≠ id := fun h => hother h.symm
      rw [hq, decide_eq_true hne, Bool.and_true]
    · rw [decide_eq_false hq, Bool.false_and]
  · exact untouched_refl db

theorem snapshots_purge (db : Database S F) (id : Str) :
    (purgeSnapshotFacts db id).snapshots = db.snapshots := by
  unfold purgeSnapshotFacts
  split
  · rfl
  · rfl

/-- What a step leaves as it is. -/
theorem step_plain (hdistinct : (db.snapshots.map SnapshotRow.snapshotId).Nodup)
    (hplain : Plainly db a) :
    ((step schema db a).snapshots.map SnapshotRow.snapshotId).Nodup ∧
      Untouched db (step schema db a) := by
  have hflush : ∀ {allowed : List Transition} {s : Session S F}, Plain allowed db s →
      ((flush schema allowed db s).snapshots.map SnapshotRow.snapshotId).Nodup ∧
        Untouched db (flush schema allowed db s) := by
    intro allowed s hs
    have hguarded : Guarded schema allowed db s := guarded_plain hdistinct hs
    rcases flush_guarded hguarded with ⟨huntouched, h⟩
    refine ⟨?_, huntouched⟩
    rcases h with h | ⟨hconsistent, -⟩
    · rwa [h]
    · exact schema.distinct hconsistent
  cases a with
  | flush s => exact hflush hplain
  | commitTransition s transition => exact hflush hplain
  | purge id =>
    refine ⟨?_, untouched_purge hdistinct id⟩
    rw [step, snapshots_purge]
    exact hdistinct

/-- A state changes in the commit that registered the change. -/
theorem step_registered (hdistinct : (db.snapshots.map SnapshotRow.snapshotId).Nodup)
    (hplain : Plainly db a) {r r' : SnapshotRow S} (hr : r ∈ db.snapshots)
    (hr' : r' ∈ (step schema db a).snapshots) (hid : r'.snapshotId = r.snapshotId)
    (hstate : r'.state ≠ r.state) :
    ∃ s, a = .commitTransition s ⟨r.snapshotId, r.state, r'.state⟩ := by
  have hsame : r' ∈ db.snapshots → False := fun hmem =>
    hstate (congrArg SnapshotRow.state (inj_on_of_nodup_map hdistinct hmem hr hid))
  have hflush : ∀ {allowed : List Transition} {s : Session S F}, Plain allowed db s →
      r' ∈ (flush schema allowed db s).snapshots →
        ⟨r.snapshotId, r.state, r'.state⟩ ∈ allowed := by
    intro allowed s hs hmem
    have hguarded : Guarded schema allowed db s := guarded_plain hdistinct hs
    rcases (flush_guarded hguarded).2 with h | ⟨-, h⟩
    · rw [h] at hmem
      exact (hsame hmem).elim
    · exact h r hr r' hmem hid hstate
  cases a with
  | flush s => exact absurd (hflush hplain hr') not_mem_nil
  | commitTransition s transition =>
    exact ⟨s, by rw [mem_singleton.mp (hflush hplain hr')]⟩
  | purge id =>
    rw [step, snapshots_purge] at hr'
    exact (hsame hr').elim

theorem distinct_reachable (h : (store schema).ReachableBy Plainly db) :
    (db.snapshots.map SnapshotRow.snapshotId).Nodup := by
  refine StepSystem.reachableBy_invariant (S := store schema)
    (I := fun db => (db.snapshots.map SnapshotRow.snapshotId).Nodup)
    (fun db hinit => schema.distinct hinit) (fun db a after hdistinct hplain hstep => ?_) h
  cases hstep
  exact (step_plain hdistinct hplain).1

/-- The guard is right about a flush in which nothing is pending that it takes for something else,
    and in a run of such flushes completed snapshots and their facts stay as they are, and a state
    changes in the commit that registered the change. -/
theorem completed_immutable (schema : Schema S F) :
    (∀ allowed db s, schema.consistent db = true → Plain allowed db s →
      Guarded schema allowed db s) ∧
    ∀ db, (store schema).ReachableBy Plainly db →
      (∀ after, (store schema).Path Plainly db after → Untouched db after) ∧
      ∀ a after, Plainly db a → (store schema).step db a = some after →
        ∀ r ∈ db.snapshots, ∀ r' ∈ after.snapshots, r'.snapshotId = r.snapshotId →
          r'.state ≠ r.state → ∃ s, a = .commitTransition s ⟨r.snapshotId, r.state, r'.state⟩ := by
  refine ⟨fun allowed db s hconsistent hplain =>
    guarded_plain (schema.distinct hconsistent) hplain,
    fun db hreach => ⟨fun after hpath => ?_, ?_⟩⟩
  · refine StepSystem.path_rel untouched_refl (fun _ _ _ => Untouched.trans)
      (I := fun db => (db.snapshots.map SnapshotRow.snapshotId).Nodup)
      (fun db a after hdistinct hplain hstep => ?_) (fun db a after hdistinct hplain hstep => ?_)
      (distinct_reachable hreach) hpath
    · cases hstep
      exact (step_plain hdistinct hplain).1
    · cases hstep
      exact (step_plain hdistinct hplain).2
  · intro a after hplain hstep r hr r' hr' hid hstate
    rw [← Option.some.inj hstep] at hr'
    exact step_registered (distinct_reachable hreach) hplain hr hr' hid hstate

end Runs

section Samples

/-- Tables with nothing in the other columns. Keys are distinct, and every fact has a snapshot. -/
def sampleSchema : Schema Unit Unit where
  consistent db := decide ((db.snapshots.map SnapshotRow.snapshotId).Nodup) &&
    db.facts.all fun r => (db.snapshots.map SnapshotRow.snapshotId).elem r.snapshotId
  cascades _ _ := false
  executes _ _ := true
  distinct h := of_decide_eq_true (Bool.and_eq_true_iff.mp h).1
  within h := by cases h

/-- A completed snapshot with a diagnostic, and one that is still building. -/
def sampleDatabase : Database Unit Unit :=
  { snapshots := [⟨"old".toList, completed, ()⟩, ⟨"new".toList, "building".toList, ()⟩]
    facts := [⟨.diagnostic, 1, "old".toList, ()⟩] }

def sealing : Transition :=
  ⟨"new".toList, "building".toList, completed⟩

/-- The second snapshot is sealed. -/
def sealed : Session Unit Unit :=
  { new := []
    dirty := [.inl
      { identity := "new".toList
        snapshotId := .loaded "new".toList
        state := .changed (some "building".toList) completed
        rest := id
        loaded := fun _ h => (Option.some.inj h).symm }]
    deleted := []
    clean := [] }

theorem plain_sealed : Plain [sealing] sampleDatabase sealed where
  current := by
    intro o ho r hr hid hcompleted
    rw [mem_singleton.mp ho] at hid
    rcases mem_cons.mp hr with rfl | hr
    · exact absurd hid (by decide)
    · rw [mem_singleton.mp hr] at hcompleted
      exact absurd hcompleted (by decide)
  owners := by
    rintro owner (⟨n, hn, -⟩ | ⟨f, hf, -⟩)
    · cases hn
    · cases hf
  named := fun f hf => by cases hf
  keyed := by
    intro o ho hstate
    rw [mem_singleton.mp ho] at hstate
    cases hstate
  deleted := fun o ho => by cases ho
  transitions := by
    intro o ho r hr hid _ state hstate
    rw [mem_singleton.mp ho] at hid hstate
    rcases mem_cons.mp hr with rfl | hr
    · exact absurd hid (by decide)
    · rw [mem_singleton.mp hr]
      exact (Option.some.inj hstate).symm
  keys := by
    intro r hr hgives
    rcases mem_cons.mp hr with rfl | hr
    · exact absurd hgives (by decide)
    · rw [mem_singleton.mp hr] at hgives
      exact absurd hgives (by decide)

/-- The sealing goes through, and the first snapshot and its diagnostic stay as they are. -/
theorem sealed_untouched :
    (∃ after, (store sampleSchema).step sampleDatabase (.commitTransition sealed sealing) =
        some after ∧ after.snapshots.map SnapshotRow.state = [completed, completed] ∧
      Untouched sampleDatabase after) ∧
      Guarded sampleSchema [sealing] sampleDatabase sealed := by
  have hreach : (store sampleSchema).ReachableBy Plainly sampleDatabase :=
    ⟨sampleDatabase, rfl, Relation.ReflTransGen.refl⟩
  have hnext : (store sampleSchema).Next Plainly sampleDatabase
      (step sampleSchema sampleDatabase (.commitTransition sealed sealing)) :=
    ⟨.commitTransition sealed sealing, plain_sealed, rfl⟩
  exact ⟨⟨_, rfl, rfl, ((completed_immutable sampleSchema).2 sampleDatabase hreach).1 _
    (Relation.ReflTransGen.single hnext)⟩,
    (completed_immutable sampleSchema).1 _ _ _ rfl plain_sealed⟩

/-- The diagnostic is moved to the second snapshot. -/
def moved : Session Unit Unit :=
  { new := []
    dirty := [.inr
      { table := .diagnostic
        identity := 1
        id := .loaded 1
        snapshotId := .changed (some "old".toList) "new".toList
        rest := id }]
    deleted := []
    clean := [] }

/-- The first snapshot is deleted while its attributes are not loaded. -/
def expired : Session Unit Unit :=
  { new := []
    dirty := []
    deleted := [.inl
      { identity := "old".toList
        snapshotId := .unloaded
        state := .unloaded
        rest := id
        loaded := fun _ h => by cases h }]
    clean := [] }

/-- A fact is added to the first snapshot, which was still building when it was loaded. -/
def stale : Session Unit Unit :=
  { new := [.inr { table := .node, id := 2, snapshotId := some "old".toList, rest := () }]
    dirty := []
    deleted := []
    clean := [
      { identity := "old".toList
        snapshotId := .loaded "old".toList
        state := .loaded "building".toList
        rest := id
        loaded := fun _ h => (Option.some.inj h).symm }] }

/-- Facts leave a completed snapshot, it is deleted, and it gets more facts. -/
theorem completed_rewritten :
    sampleSchema.consistent sampleDatabase = true ∧
      ¬ Guarded sampleSchema [] sampleDatabase moved ∧
      ¬ Guarded sampleSchema [] sampleDatabase expired ∧
      ¬ Guarded sampleSchema [] sampleDatabase stale := by
  have hunguarded : ∀ (s : Session Unit Unit) after,
      written sampleSchema sampleDatabase s = some after →
      (after.factsOf "old".toList).length ≠ 1 → guard [] sampleDatabase s = .ok () →
        ¬ Guarded sampleSchema [] sampleDatabase s := by
    intro s after hwritten hlength hguard h
    have htouched : ¬ Untouched sampleDatabase after := by
      intro huntouched
      rw [(huntouched _ mem_cons_self rfl).2] at hlength
      exact hlength rfl
    rcases (h after hwritten).1 htouched with ⟨e, he⟩
    rw [hguard] at he
    cases he
  exact ⟨rfl, hunguarded moved _ rfl (by decide) rfl, hunguarded expired _ rfl (by decide) rfl,
    hunguarded stale _ rfl (by decide) rfl⟩

end Samples

end SnapshotGuard

end Partha
