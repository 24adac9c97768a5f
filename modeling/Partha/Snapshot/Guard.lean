import Partha.Canonical.Value
import Partha.Library.Checked
import Partha.Library.Rows
import Partha.Library.Steps

/-!
# The Guard of Completed Snapshots

`_guard_completed_snapshots` looks at the pending changes of a session before they are flushed, and
raises if they touch a completed snapshot or its facts.

The guard asks each changed object what it is about: a fact is judged by the snapshot that it names
now, and a snapshot by its state as the session has loaded it. What a flush writes goes by the rows
instead. The two agree as long as a fact of a completed snapshot still names one, the loaded states
are those of the rows, and a completed snapshot is not deleted or given another key while its state
is not loaded. A fact that is moved to a snapshot which is still building leaves a completed one
unnoticed.

An attribute of an object is not loaded, or has the value of its row, or was changed, in which case
the original value is known if it was loaded before. The constraints of the tables and the rows that
are deleted along a foreign key are parameters. A flush that breaks a constraint writes nothing.

## Main definitions

* `guard`: `_guard_completed_snapshots`.
* `written`: The database after a flush.
* `store`: The runs of flushes, registered transitions and purges.
* `Plain`: Nothing is pending that the guard takes for something else.
* `Untouched`, `Registered`: What a flush has to leave as it is.

## Theorems

* `guard_ok`: The guard passes iff it passes every pending object.
* `storedSnapshotState_completed`: A completed snapshot is seen as one if its object is current.
* `row_of_dirty`, `row_of_deletedFact`: What the guard passes has no row of a completed snapshot.
* `row_of_dirtySnapshot`, `row_of_deletedSnapshot`: It is no completed snapshot either.
-/

namespace Partha

namespace SnapshotGuard

open Canonical Checked

section Rows

/-- The tables of `_CHILD_TYPES`. -/
inductive FactTable where
  | node
  | edge
  | assertion
  | observation
  | evidence
  | derivation
  | diagnostic
  deriving DecidableEq, Repr

/-- A row of `ri_snapshots`, with the columns that are read here and the others. -/
structure SnapshotRow (S : Type) where
  snapshotId : Str
  state : Str
  rest : S

/-- A row of one of the tables of facts. -/
structure FactRow (F : Type) where
  table : FactTable
  id : Nat
  snapshotId : Str
  rest : F

structure Database (S F : Type) where
  snapshots : List (SnapshotRow S)
  facts : List (FactRow F)

def completed : Str :=
  "completed".toList

end Rows

section Sessions

/-- An attribute of a mapped object. The original value of a change is there if it was loaded. -/
inductive Attr (α : Type) where
  | unloaded
  | loaded (value : α)
  | changed (original : Option α) (value : α)

/-- The value of an attribute, which is read from the row if it is not loaded. -/
def Attr.current {α : Type} (stored : Option α) : Attr α → Option α
  | .unloaded => stored
  | .loaded value => some value
  | .changed _ value => some value

/-- What the history of an attribute says of the value in the database. -/
def Attr.committed {α : Type} : Attr α → Option α
  | .unloaded => none
  | .loaded value => some value
  | .changed original _ => original

/-- The value in the row after a flush. A value that is the original one again is not written. -/
def Attr.written {α : Type} [DecidableEq α] (stored : α) : Attr α → α
  | .changed original value => if original = some value then stored else value
  | _ => stored

/-- A snapshot of the identity map, which stands for the row with the key `identity`. The key was
    loaded with it. -/
structure SnapshotObject (S : Type) where
  identity : Str
  snapshotId : Attr Str
  state : Attr Str
  rest : S → S
  loaded : ∀ key, snapshotId.committed = some key → key = identity

structure FactObject (F : Type) where
  table : FactTable
  identity : Nat
  id : Attr Nat
  snapshotId : Attr Str
  rest : F → F

/-- A snapshot without a row. It can have been flushed and rolled back before. -/
structure NewSnapshot (S : Type) where
  snapshotId : Str
  state : Attr Str
  rest : S

/-- A fact without a row, and the identifier that its row will have. -/
structure NewFact (F : Type) where
  table : FactTable
  id : Nat
  snapshotId : Option Str
  rest : F

/-- The pending changes of a session and the other snapshots of its identity map. -/
structure Session (S F : Type) where
  new : List (NewSnapshot S ⊕ NewFact F)
  dirty : List (SnapshotObject S ⊕ FactObject F)
  deleted : List (SnapshotObject S ⊕ FactObject F)
  clean : List (SnapshotObject S)

variable {S F : Type}

def Session.dirtySnapshots (s : Session S F) : List (SnapshotObject S) :=
  s.dirty.filterMap Sum.getLeft?

def Session.deletedSnapshots (s : Session S F) : List (SnapshotObject S) :=
  s.deleted.filterMap Sum.getLeft?

def Session.dirtyFacts (s : Session S F) : List (FactObject F) :=
  s.dirty.filterMap Sum.getRight?

def Session.deletedFacts (s : Session S F) : List (FactObject F) :=
  s.deleted.filterMap Sum.getRight?

/-- `identity_map.get`. -/
def Session.object (s : Session S F) (id : Str) : Option (SnapshotObject S) :=
  (s.dirtySnapshots ++ s.deletedSnapshots ++ s.clean).find? fun o => o.identity = id

/-- A snapshot is among the deleted objects. -/
def Session.deletesSnapshot (s : Session S F) (id : Str) : Bool :=
  s.deletedSnapshots.any fun o => o.identity = id

/-- A fact object stands for a row. -/
def FactObject.IsOf (f : FactObject F) (r : FactRow F) : Prop :=
  f.table = r.table ∧ f.identity = r.id

instance (f : FactObject F) (r : FactRow F) : Decidable (f.IsOf r) :=
  inferInstanceAs (Decidable (_ ∧ _))

end Sessions

section Guard

variable {S F : Type}

/-- A change of the state of a snapshot. -/
structure Transition where
  snapshotId : Str
  source : Str
  target : Str
  deriving DecidableEq, Repr

/-- The exceptions of the guard, and that of an object whose row is gone when it is read. -/
inductive SnapshotError where
  | immutable (message : String)
  | lifecycle (source target : Str)
  | objectDeleted
  deriving DecidableEq, Repr

/-- The query for the state of a snapshot. -/
def storedState (db : Database S F) (id : Str) : Option Str :=
  (db.snapshots.find? fun r => r.snapshotId = id).map SnapshotRow.state

/-- `_persisted_state`. -/
def persistedState (o : SnapshotObject S) : Option Str :=
  o.state.committed

/-- `_stored_snapshot_state`. An object of the identity map is never new. -/
def storedSnapshotState (db : Database S F) (s : Session S F) : Option Str → Option Str
  | none => none
  | some id => match (s.object id).bind persistedState with
    | some state => some state
    | none => storedState db id

/-- Reading an attribute. -/
def read {α : Type} (stored : Option α) (a : Attr α) : Except SnapshotError α :=
  match a.current stored with
  | some value => .ok value
  | none => .error .objectDeleted

/-- The key of a snapshot object, as it is read. -/
def readKey (db : Database S F) (o : SnapshotObject S) : Except SnapshotError Str :=
  read ((db.snapshots.find? fun r => r.snapshotId = o.identity).map SnapshotRow.snapshotId)
    o.snapshotId

/-- The snapshot that a fact object names. -/
def readOwner (db : Database S F) (f : FactObject F) : Except SnapshotError Str :=
  read ((db.facts.find? fun r => f.IsOf r).map FactRow.snapshotId) f.snapshotId

/-- The state before the flush and the state now, of a snapshot that is written. -/
def checkState (allowed : List Transition) (persisted : Option Str)
    (state snapshotId : Except SnapshotError Str) : Except SnapshotError Unit :=
  match persisted with
  | none => .ok ()
  | some persisted =>
    if persisted = completed then
      .error (.immutable "A completed snapshot is immutable and cannot be modified.")
    else do
      let state ← state
      if state = persisted then .ok ()
      else do
        let id ← snapshotId
        if allowed.elem ⟨id, persisted, state⟩ then .ok ()
        else .error (.lifecycle persisted state)

/-- A fact that is written. -/
def checkFact (db : Database S F) (s : Session S F) (owner : Option Str) :
    Except SnapshotError Unit :=
  if storedSnapshotState db s owner = some completed then
    .error (.immutable "Facts of a completed snapshot are immutable.")
  else .ok ()

/-- The first loop, for a new object. -/
def checkNew (allowed : List Transition) (db : Database S F) (s : Session S F) :
    NewSnapshot S ⊕ NewFact F → Except SnapshotError Unit
  | .inl n => checkState allowed n.state.committed (read none n.state) (.ok n.snapshotId)
  | .inr n => checkFact db s n.snapshotId

/-- The first loop, for a dirty object. -/
def checkDirty (allowed : List Transition) (db : Database S F) (s : Session S F) :
    SnapshotObject S ⊕ FactObject F → Except SnapshotError Unit
  | .inl o => do
    let persisted ← match persistedState o with
      | some state => .ok (some state)
      | none => do
        let id ← readKey db o
        .ok (storedState db id)
    checkState allowed persisted (read (storedState db o.identity) o.state) (readKey db o)
  | .inr f => do
    let owner ← readOwner db f
    checkFact db s (some owner)

/-- The second loop. -/
def checkDeleted (db : Database S F) (s : Session S F) :
    SnapshotObject S ⊕ FactObject F → Except SnapshotError Unit
  | .inl o =>
    if persistedState o = some completed then
      .error (.immutable "A completed snapshot cannot be deleted directly.")
    else .ok ()
  | .inr f => do
    let owner ← readOwner db f
    if s.deletesSnapshot owner = false ∧
        storedSnapshotState db s (some owner) = some completed then
      .error (.immutable "Facts of a completed snapshot cannot be deleted.")
    else .ok ()

/-- `_guard_completed_snapshots`. -/
def guard (allowed : List Transition) (db : Database S F) (s : Session S F) :
    Except SnapshotError Unit := do
  let _ ← collect (checkNew allowed db s) s.new
  let _ ← collect (checkDirty allowed db s) s.dirty
  let _ ← collect (checkDeleted db s) s.deleted
  .ok ()

end Guard

section Flush

variable {S F : Type}

/-- What the tables enforce. A row that goes with others along a foreign key is of the snapshot of
    one of them, since the keys carry the snapshot. -/
structure Schema (S F : Type) where
  consistent : Database S F → Bool
  cascades : List (FactRow F) → FactRow F → Bool
  executes : Database S F → Session S F → Bool
  distinct : ∀ {db}, consistent db = true → (db.snapshots.map SnapshotRow.snapshotId).Nodup
  within : ∀ {dropped r}, cascades dropped r = true → ∃ d ∈ dropped, d.snapshotId = r.snapshotId

/-- The row of a new snapshot, with the default of the column. -/
def NewSnapshot.row (n : NewSnapshot S) : SnapshotRow S :=
  ⟨n.snapshotId, (n.state.current none).getD "building".toList, n.rest⟩

/-- The row of a new fact, which needs a snapshot. -/
def NewFact.row (n : NewFact F) : Option (FactRow F) :=
  n.snapshotId.map fun id => ⟨n.table, n.id, id, n.rest⟩

/-- What a snapshot object makes of its row. -/
def SnapshotObject.write (o : SnapshotObject S) (r : SnapshotRow S) : SnapshotRow S :=
  ⟨o.snapshotId.written r.snapshotId, o.state.written r.state, o.rest r.rest⟩

def FactObject.write (f : FactObject F) (r : FactRow F) : FactRow F :=
  ⟨r.table, f.id.written r.id, f.snapshotId.written r.snapshotId, f.rest r.rest⟩

/-- The updates of the rows. -/
def Session.writeSnapshot (s : Session S F) (r : SnapshotRow S) : SnapshotRow S :=
  match s.dirtySnapshots.find? fun o => o.identity = r.snapshotId with
  | none => r
  | some o => o.write r

def Session.writeFact (s : Session S F) (r : FactRow F) : FactRow F :=
  match s.dirtyFacts.find? fun f => f.IsOf r with
  | none => r
  | some f => f.write r

def Session.deletesFact (s : Session S F) (r : FactRow F) : Bool :=
  s.deletedFacts.any fun f => f.IsOf r

def Session.newSnapshots (s : Session S F) : List (SnapshotRow S) :=
  (s.new.filterMap Sum.getLeft?).map NewSnapshot.row

def Session.newFacts (s : Session S F) : List (NewFact F) :=
  s.new.filterMap Sum.getRight?

/-- The database after a flush, or nothing if it fails. A deleted snapshot takes its facts with it,
    and a deleted fact those that refer to it. -/
def written (schema : Schema S F) (db : Database S F) (s : Session S F) :
    Option (Database S F) :=
  let dropped := db.facts.filter s.deletesFact
  let kept := (db.facts.filter fun r => !s.deletesFact r).map s.writeFact ++
    s.newFacts.filterMap NewFact.row
  let after : Database S F :=
    { snapshots :=
        (db.snapshots.filter fun r => !s.deletesSnapshot r.snapshotId).map s.writeSnapshot ++
          s.newSnapshots
      facts := kept.filter fun r =>
        !s.deletesSnapshot r.snapshotId && !schema.cascades dropped r }
  if (s.newFacts.all fun n => n.snapshotId.isSome) && schema.executes db s &&
    schema.consistent after then some after else none

/-- A flush with the guard before it. Nothing is written if the guard raises. -/
def flush (schema : Schema S F) (allowed : List Transition) (db : Database S F)
    (s : Session S F) : Database S F :=
  match guard allowed db s with
  | .error _ => db
  | .ok () => (written schema db s).getD db

/-- `purge_snapshot_facts`. -/
def purgeSnapshotFacts (db : Database S F) (id : Str) : Database S F :=
  if storedState db id = some "failed".toList then
    { db with facts := db.facts.filter fun r => r.snapshotId ≠ id }
  else db

/-- What happens in a run. A transition is registered for the commit that it is in. -/
inductive Action (S F : Type) where
  | flush (s : Session S F)
  | commitTransition (s : Session S F) (transition : Transition)
  | purge (id : Str)

def step (schema : Schema S F) (db : Database S F) : Action S F → Database S F
  | .flush s => flush schema [] db s
  | .commitTransition s transition => flush schema [transition] db s
  | .purge id => purgeSnapshotFacts db id

/-- The runs from any database. -/
def store (schema : Schema S F) : StepSystem (Database S F) (Action S F) where
  init db := schema.consistent db = true
  step db a := some (step schema db a)

end Flush

section Conditions

variable {S F : Type}

/-- The facts of a snapshot. -/
def Database.factsOf (db : Database S F) (id : Str) : List (FactRow F) :=
  db.facts.filter fun r => r.snapshotId = id

/-- The completed snapshots of a database and their facts are in another one as they were. -/
def Untouched (db after : Database S F) : Prop :=
  ∀ r ∈ db.snapshots, r.state = completed →
    r ∈ after.snapshots ∧ after.factsOf r.snapshotId = db.factsOf r.snapshotId

/-- The snapshots that are in both databases have the same states, or the change is registered. -/
def Registered (allowed : List Transition) (db after : Database S F) : Prop :=
  ∀ r ∈ db.snapshots, ∀ r' ∈ after.snapshots, r'.snapshotId = r.snapshotId →
    r'.state ≠ r.state → ⟨r.snapshotId, r.state, r'.state⟩ ∈ allowed

/-- What is claimed of a flush. -/
def Guarded (schema : Schema S F) (allowed : List Transition) (db : Database S F)
    (s : Session S F) : Prop :=
  ∀ after, written schema db s = some after →
    (¬ Untouched db after → ∃ e, guard allowed db s = .error e) ∧
      (¬ Registered allowed db after → ∃ e, guard allowed db s = .error e)

/-- The snapshot that a pending fact names. -/
def Session.Names (s : Session S F) (db : Database S F) (owner : Str) : Prop :=
  (∃ n ∈ s.newFacts, n.snapshotId = some owner) ∨
    ∃ f ∈ s.dirtyFacts ++ s.deletedFacts, readOwner db f = .ok owner

/-- The object of a completed snapshot has no other state loaded. -/
def Current (db : Database S F) (o : SnapshotObject S) : Prop :=
  ∀ r ∈ db.snapshots, r.snapshotId = o.identity → r.state = completed →
    ∀ state, persistedState o = some state → state = completed

/-- A snapshot is deleted, or it gets another key. -/
def Session.givesUp (s : Session S F) (r : SnapshotRow S) : Bool :=
  s.deletesSnapshot r.snapshotId || (s.writeSnapshot r).snapshotId != r.snapshotId

/-- New snapshots, and snapshots that get another key. -/
def Session.incoming (s : Session S F) (db : Database S F) : List (SnapshotRow S) :=
  s.newSnapshots ++ (db.snapshots.filter fun r =>
    (s.writeSnapshot r).snapshotId != r.snapshotId).map s.writeSnapshot

/-- Nothing is pending that the guard takes for something else. -/
structure Plain (allowed : List Transition) (db : Database S F) (s : Session S F) : Prop where
  current : ∀ o ∈ s.dirtySnapshots ++ s.deletedSnapshots, Current db o
  owners : ∀ owner, s.Names db owner → ∀ o, s.object owner = some o → Current db o
  named : ∀ f ∈ s.dirtyFacts ++ s.deletedFacts, ∀ r ∈ db.facts, f.IsOf r →
    storedState db r.snapshotId = some completed →
      ∃ owner, readOwner db f = .ok owner ∧ storedState db owner = some completed
  keyed : ∀ o ∈ s.dirtySnapshots, persistedState o = none → ∀ r ∈ db.snapshots,
    r.snapshotId = o.identity → r.state = completed →
      ∃ key, readKey db o = .ok key ∧ storedState db key = some completed
  deleted : ∀ o ∈ s.deletedSnapshots, persistedState o = none → ∀ r ∈ db.snapshots,
    r.snapshotId = o.identity → r.state ≠ completed
  transitions : ∀ o ∈ s.dirtySnapshots, ∀ r ∈ db.snapshots, r.snapshotId = o.identity →
    o.state.written r.state ≠ r.state → ∀ state, persistedState o = some state → state = r.state
  keys : ∀ r ∈ db.snapshots, s.givesUp r = true → ∀ r' ∈ s.incoming db,
    r'.snapshotId = r.snapshotId → r'.state ≠ r.state →
      ⟨r.snapshotId, r.state, r'.state⟩ ∈ allowed

end Conditions

section Checks

variable {S F : Type} {allowed : List Transition} {db : Database S F} {s : Session S F}

/-- The guard passes iff it passes every pending object. -/
theorem guard_ok :
    guard allowed db s = .ok () ↔
      (∀ x ∈ s.new, checkNew allowed db s x = .ok ()) ∧
      (∀ x ∈ s.dirty, checkDirty allowed db s x = .ok ()) ∧
      ∀ x ∈ s.deleted, checkDeleted db s x = .ok () := by
  have hunit : ∀ {α : Type} (check : α → Except SnapshotError Unit) (l : List α),
      (∃ m, collect check l = .ok m) ↔ ∀ x ∈ l, check x = .ok () :=
    fun check l => collect_ok_iff.trans
      (forall₂_congr fun x _ => ⟨fun ⟨_, h⟩ => h, fun h => ⟨(), h⟩⟩)
  rw [guard, bind_eq_ok, ← hunit (checkNew allowed db s), ← hunit (checkDirty allowed db s),
    ← hunit (checkDeleted db s)]
  constructor
  · rintro ⟨m, hm, h⟩
    rcases bind_eq_ok.mp h with ⟨m', hm', h⟩
    rcases bind_eq_ok.mp h with ⟨m'', hm'', -⟩
    exact ⟨⟨m, hm⟩, ⟨m', hm'⟩, m'', hm''⟩
  · rintro ⟨⟨m, hm⟩, ⟨m', hm'⟩, m'', hm''⟩
    exact ⟨m, hm, bind_eq_ok.mpr ⟨m', hm', bind_eq_ok.mpr ⟨m'', hm'', rfl⟩⟩⟩

theorem checkState_ok {persisted : Str} {state snapshotId : Except SnapshotError Str}
    (h : checkState allowed (some persisted) state snapshotId = .ok ()) :
    persisted ≠ completed ∧ ∀ value, state = .ok value → value ≠ persisted →
      ∀ id, snapshotId = .ok id → ⟨id, persisted, value⟩ ∈ allowed := by
  unfold checkState at h
  dsimp only at h
  by_cases hcompleted : persisted = completed
  · rw [if_pos hcompleted] at h
    cases h
  rw [if_neg hcompleted] at h
  refine ⟨hcompleted, ?_⟩
  rintro value rfl hne id rfl
  rw [ok_bind, if_neg hne, ok_bind] at h
  by_cases hallowed : allowed.elem ⟨id, persisted, value⟩ = true
  · exact List.mem_of_elem_eq_true hallowed
  · rw [if_neg hallowed] at h
    cases h

theorem checkFact_ok {owner : Option Str} :
    checkFact db s owner = .ok () ↔ storedSnapshotState db s owner ≠ some completed := by
  unfold checkFact
  by_cases h : storedSnapshotState db s owner = some completed
  · rw [if_pos h]
    exact iff_of_false (fun h' => by cases h') (fun h' => h' h)
  · rw [if_neg h]
    exact iff_of_true rfl h

end Checks

section States

variable {S F : Type} {db : Database S F} {s : Session S F}

variable {id : Str} {r : SnapshotRow S}

theorem exists_row {state : Str} (h : storedState db id = some state) :
    ∃ r ∈ db.snapshots, r.snapshotId = id ∧ r.state = state := by
  rcases Option.map_eq_some_iff.mp h with ⟨r, hr, hstate⟩
  have hid := List.find?_some hr
  exact ⟨r, List.mem_of_find?_eq_some hr, of_decide_eq_true hid, hstate⟩

theorem find_row (hdistinct : (db.snapshots.map SnapshotRow.snapshotId).Nodup)
    (hr : r ∈ db.snapshots) : db.snapshots.find? (fun q => q.snapshotId = r.snapshotId) = some r :=
  (Rows.find?_eq_some hdistinct).mpr ⟨hr, rfl⟩

theorem storedState_row (hdistinct : (db.snapshots.map SnapshotRow.snapshotId).Nodup)
    (hr : r ∈ db.snapshots) : storedState db r.snapshotId = some r.state := by
  rw [storedState, find_row hdistinct hr, Option.map_some]

/-- A completed snapshot is seen as one if its object is current. -/
theorem storedSnapshotState_completed (hcurrent : ∀ o, s.object id = some o → Current db o)
    (h : storedState db id = some completed) :
    storedSnapshotState db s (some id) = some completed := by
  unfold storedSnapshotState
  dsimp only
  cases hobject : (s.object id).bind persistedState with
  | none => exact h
  | some state =>
    rcases Option.bind_eq_some_iff.mp hobject with ⟨o, ho, hstate⟩
    have hidentity := List.find?_some ho
    rcases exists_row h with ⟨r, hr, hid, hcompleted⟩
    exact congrArg some (hcurrent o ho r hr
      (hid.trans (of_decide_eq_true hidentity).symm) hcompleted state hstate)

/-- The key that an object shows is the one that its row has after the flush. -/
theorem readKey_row (hdistinct : (db.snapshots.map SnapshotRow.snapshotId).Nodup)
    {o : SnapshotObject S} (hr : r ∈ db.snapshots) (hid : r.snapshotId = o.identity) :
    readKey db o = .ok (o.write r).snapshotId := by
  rw [readKey, ← hid, find_row hdistinct hr, Option.map_some, SnapshotObject.write]
  have hloaded := o.loaded
  cases hkey : o.snapshotId with
  | unloaded => rfl
  | loaded key =>
    rw [hkey] at hloaded
    exact congrArg Except.ok ((hloaded key rfl).trans hid.symm)
  | changed original key =>
    rw [hkey] at hloaded
    by_cases hsame : original = some key
    · rw [Attr.written, if_pos hsame]
      exact congrArg Except.ok ((hloaded key hsame).trans hid.symm)
    · rw [Attr.written, if_neg hsame]
      rfl

end States

section Objects

theorem mem_lefts {α β : Type} {l : List (α ⊕ β)} {a : α} :
    a ∈ l.filterMap Sum.getLeft? ↔ .inl a ∈ l := by
  rw [List.mem_filterMap]
  constructor
  · rintro ⟨x, hx, h⟩
    rwa [Sum.getLeft?_eq_some_iff.mp h] at hx
  · exact fun h => ⟨_, h, rfl⟩

theorem mem_rights {α β : Type} {l : List (α ⊕ β)} {b : β} :
    b ∈ l.filterMap Sum.getRight? ↔ .inr b ∈ l := by
  rw [List.mem_filterMap]
  constructor
  · rintro ⟨x, hx, h⟩
    rwa [Sum.getRight?_eq_some_iff.mp h] at hx
  · exact fun h => ⟨_, h, rfl⟩

variable {S F : Type} {allowed : List Transition} {db : Database S F} {s : Session S F}

variable (hguard : guard allowed db s = .ok ()) (hplain : Plain allowed db s)
include hguard hplain

variable {owner : Str} {f : FactObject F} {r : SnapshotRow S} {o : SnapshotObject S}

omit hguard in
/-- What is named by a fact that may be written is not completed. -/
theorem owner_of_checkFact (hnames : s.Names db owner) (h : checkFact db s (some owner) = .ok ()) :
    storedState db owner ≠ some completed := fun hstored =>
  checkFact_ok.mp h (storedSnapshotState_completed (hplain.owners owner hnames) hstored)

theorem owner_of_new {n : NewFact F} (hn : n ∈ s.newFacts) (howner : n.snapshotId = some owner) :
    storedState db owner ≠ some completed := by
  have hcheck := (guard_ok.mp hguard).1 _ (mem_rights.mp hn)
  rw [checkNew, howner] at hcheck
  exact owner_of_checkFact hplain (.inl ⟨n, hn, howner⟩) hcheck

theorem owner_of_dirty (hf : f ∈ s.dirtyFacts) (howner : readOwner db f = .ok owner) :
    storedState db owner ≠ some completed := by
  have hcheck := (guard_ok.mp hguard).2.1 _ (mem_rights.mp hf)
  rw [checkDirty, howner, ok_bind] at hcheck
  exact owner_of_checkFact hplain
    (.inr ⟨f, List.mem_append_left _ hf, howner⟩) hcheck

/-- A dirty fact has no row of a completed snapshot. -/
theorem row_of_dirty (hf : f ∈ s.dirtyFacts) {r : FactRow F} (hr : r ∈ db.facts) (hof : f.IsOf r) :
    storedState db r.snapshotId ≠ some completed := by
  intro hstored
  rcases hplain.named f (List.mem_append_left _ hf) r hr hof hstored with ⟨owner, howner, hnamed⟩
  exact owner_of_dirty hguard hplain hf howner hnamed

/-- A deleted snapshot is not completed. -/
theorem row_of_deletedSnapshot (ho : o ∈ s.deletedSnapshots) (hr : r ∈ db.snapshots)
    (hid : r.snapshotId = o.identity) : r.state ≠ completed := by
  intro hcompleted
  have hcheck := (guard_ok.mp hguard).2.2 _ (mem_lefts.mp ho)
  rw [checkDeleted] at hcheck
  cases hstate : persistedState o with
  | none => exact hplain.deleted o ho hstate r hr hid hcompleted
  | some state =>
    rw [hplain.current o (List.mem_append_right _ ho) r hr hid hcompleted state hstate] at hstate
    rw [if_pos hstate] at hcheck
    cases hcheck

/-- A deleted fact has no row of a completed snapshot. -/
theorem row_of_deletedFact (hf : f ∈ s.deletedFacts) {r : FactRow F} (hr : r ∈ db.facts)
    (hof : f.IsOf r) : storedState db r.snapshotId ≠ some completed := by
  intro hstored
  rcases hplain.named f (List.mem_append_right _ hf) r hr hof hstored with ⟨owner, howner, hnamed⟩
  have hcheck := (guard_ok.mp hguard).2.2 _ (mem_rights.mp hf)
  rw [checkDeleted, howner, ok_bind] at hcheck
  have hseen := storedSnapshotState_completed
    (hplain.owners owner (.inr ⟨f, List.mem_append_right _ hf, howner⟩)) hnamed
  by_cases hdeletes : s.deletesSnapshot owner = true
  · -- The whole snapshot is deleted, and its own object is checked.
    rcases List.any_eq_true.mp hdeletes with ⟨o, ho, hidentity⟩
    rcases exists_row hnamed with ⟨q, hq, hid, hcompleted⟩
    exact row_of_deletedSnapshot hguard hplain ho hq
      (hid.trans (of_decide_eq_true hidentity).symm) hcompleted
  · rw [if_pos ⟨Bool.eq_false_iff.mpr hdeletes, hseen⟩] at hcheck
    cases hcheck

variable (hdistinct : (db.snapshots.map SnapshotRow.snapshotId).Nodup)
include hdistinct

omit hplain in
/-- The state that a dirty snapshot is checked for. -/
theorem checkState_of_dirty (ho : o ∈ s.dirtySnapshots) (hr : r ∈ db.snapshots)
    (hid : r.snapshotId = o.identity) :
    checkState allowed ((persistedState o).or (storedState db (o.write r).snapshotId))
      (read (some r.state) o.state) (.ok (o.write r).snapshotId) = .ok () := by
  have hcheck := (guard_ok.mp hguard).2.1 _ (mem_lefts.mp ho)
  rw [checkDirty, readKey_row hdistinct hr hid, ← hid, storedState_row hdistinct hr] at hcheck
  cases hstate : persistedState o with
  | none | some state =>
    rw [hstate] at hcheck
    exact hcheck

/-- A dirty snapshot is not completed. -/
theorem row_of_dirtySnapshot (ho : o ∈ s.dirtySnapshots) (hr : r ∈ db.snapshots)
    (hid : r.snapshotId = o.identity) : r.state ≠ completed := by
  intro hcompleted
  have hcheck := checkState_of_dirty hguard hdistinct ho hr hid
  cases hstate : persistedState o with
  | none =>
    rcases hplain.keyed o ho hstate r hr hid hcompleted with ⟨key, hkey, hstored⟩
    rw [readKey_row hdistinct hr hid] at hkey
    rw [hstate, Option.none_or, Except.ok.inj hkey, hstored] at hcheck
    exact (checkState_ok hcheck).1 rfl
  | some state =>
    rw [hstate, Option.some_or] at hcheck
    exact (checkState_ok hcheck).1
      (hplain.current o (List.mem_append_left _ ho) r hr hid hcompleted state hstate)

end Objects

end SnapshotGuard

end Partha
