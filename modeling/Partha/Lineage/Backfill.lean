import Partha.Library.Grouping
import Partha.Library.Rows
import Partha.Library.SortKeys
import Partha.Lineage.SourceKeys

/-!
# The Lineage Backfill

The migration that puts the repositories of the time before lineages into lineages.

It reads all rows, groups those that it can resolve by owner, source and branch, and
then executes one statement for the lineage of a group and one for each member. Then
it checks what it has written. The identifier of a lineage is computed from its group,
so a statement that is executed again writes what is there.

A run may be interrupted after any statement, and the next one may read the rows in
another order. Whatever runs there were, a statement leaves the rows that it is about
as they are to be at the end. So a run that is not interrupted ends in the same tables.

## Main definitions

* `eligibleKey`: When a row is put into a lineage.
* `eligibleGroups`: `_eligible_groups`.
* `statements`, `execute`: `_backfill_lineages`, statement by statement.
* `verifyBackfill`: `_verify_backfill`.
* `Attempted`: The tables after any number of interrupted runs.
* `Backfilled`: What the tables are like at the end.

## Theorems

* `execute_planned`: What one statement does.
* `run_settled`: A run that is not interrupted, after any others.
* `backfill_agrees`: What it leads to, and that live imports find the lineages.
-/

namespace Partha

namespace Backfill

open Canonical (Str)
open SortKeys (sortBy codePoints)
open Grouping (groups group)
open List

section Definitions

/-- The columns of a repository that are read. -/
structure SelectedRow where
  id : Str
  ownerId : Str
  name : Str
  source : Str
  sourceUrl : Option Str
  revisionKind : Option Str
  revisionValue : Option Str
  revisionRef : Option Str
  createdAt : Nat
  deriving DecidableEq, Repr

/-- A row of `repositories`. -/
structure RepositoryRow extends SelectedRow where
  lineageId : Option Str
  sequence : Option Nat
  deriving DecidableEq, Repr

/-- A row of `repository_lineages`. -/
structure LineageRow where
  id : Str
  ownerId : Str
  canonicalSourceKey : Str
  canonicalBranch : Str
  displayName : Str
  latestRepositoryId : Option Str
  nextSequence : Nat
  createdAt : Nat
  deriving DecidableEq, Repr

structure Tables where
  repositories : List RepositoryRow
  lineages : List LineageRow
  deriving DecidableEq, Repr

/-- What the rows of a group have in common. -/
structure GroupKey where
  ownerId : Str
  canonicalSourceKey : Str
  canonicalBranch : Str
  deriving DecidableEq, Repr

/-- `_GIT_SHA_RE.fullmatch`. -/
def isGitSha (value : Str) : Bool :=
  value.length = 40 && value.all (fun c => c.isDigit || ('a' ≤ c && c ≤ 'f'))

/-- `_REF_RE.fullmatch`. -/
def isRef (value : Str) : Bool :=
  ["refs/heads/".toList, "refs/tags/".toList].any fun start =>
    start.isPrefixOf value && value.drop start.length ≠ [] &&
      (value.drop start.length).all (fun c => Github.isNameChar c || c = '/')

/-- The group of a row, if it belongs to one. -/
def eligibleKey (row : SelectedRow) : Option GroupKey :=
  if row.source ≠ "github".toList ∨ row.revisionKind ≠ some "git".toList then none
  else if row.revisionValue.any isGitSha = false then none
  else
    match row.revisionRef with
    | none => none
    | some branch =>
      if isRef branch = false then none
      else (canonicalGithubSource row.sourceUrl).map (fun source => ⟨row.ownerId, source, branch⟩)

/-- What the members of a group are sorted by. -/
def memberKey (row : SelectedRow) : ℕ ×ₗ List ℕ :=
  toLex (row.createdAt, codePoints row.id)

/-- `_eligible_groups`. -/
def eligibleGroups (rows : List SelectedRow) : List (GroupKey × List SelectedRow) :=
  (groups eligibleKey rows).map (fun g => (g.1, sortBy memberKey g.2))

/-- A text with its length before it. -/
def delimited (s : Str) : Str :=
  Nat.toDigits 10 s.length ++ ':' :: s

/-- What the identifier of a lineage is computed from. -/
def encode (key : GroupKey) : Str :=
  delimited key.ownerId ++ '|' ::
    (delimited key.canonicalSourceKey ++ '|' :: delimited key.canonicalBranch)

/-- Why the migration raises. -/
inductive MigrationError where
  | integrity
  | index
  | verification (message : Str)
  deriving DecidableEq, Repr

/-- A statement: of the lineage of a group, or of one of its members. -/
inductive Statement where
  | reconcile (key : GroupKey) (members : List SelectedRow)
  | attach (repositoryId lineageId : Str) (sequence : Nat)
  deriving DecidableEq, Repr

variable (uuid5 : Str → Str)

/-- `_lineage_id_for`. -/
def lineageIdFor (key : GroupKey) : Str :=
  uuid5 (encode key)

/-- The statements for the members of a group. -/
def attachments (lineageId : Str) (members : List SelectedRow) : List Statement :=
  (members.zipIdx 1).map (fun p => .attach p.1.id lineageId p.2)

/-- The statements of `_backfill_lineages`. -/
def statements (gs : List (GroupKey × List SelectedRow)) : List Statement :=
  gs.flatMap (fun g => .reconcile g.1 g.2 :: attachments (lineageIdFor uuid5 g.1) g.2)

/-- The row that is inserted for a group. -/
def newLineage (key : GroupKey) (first last : SelectedRow) (count : Nat) : LineageRow :=
  { id := lineageIdFor uuid5 key
    ownerId := key.ownerId
    canonicalSourceKey := key.canonicalSourceKey
    canonicalBranch := key.canonicalBranch
    displayName := first.name
    latestRepositoryId := some last.id
    nextSequence := count + 1
    createdAt := first.createdAt }

/-- `uq_repository_lineages_owner_source_branch`. -/
def hasPair (lineages : List LineageRow) (key : GroupKey) : Bool :=
  lineages.any (fun l => l.ownerId = key.ownerId && l.canonicalSourceKey = key.canonicalSourceKey &&
    l.canonicalBranch = key.canonicalBranch)

/-- The row of a lineage is inserted, or its counter and its pointer are written. -/
def reconcile (t : Tables) (key : GroupKey) (first last : SelectedRow) (count : Nat) :
    Except MigrationError Tables :=
  if t.lineages.any (fun l => l.id = lineageIdFor uuid5 key) then
    .ok { t with
      lineages := Rows.updateWhere (fun l => l.id = lineageIdFor uuid5 key)
        (fun l => { l with latestRepositoryId := some last.id, nextSequence := count + 1 })
        t.lineages }
  else if hasPair t.lineages key then .error .integrity
  else .ok { t with lineages := t.lineages ++ [newLineage uuid5 key first last count] }

def execute (t : Tables) : Statement → Except MigrationError Tables
  | .reconcile key members =>
    match members.head?, members.getLast? with
    | some first, some last => reconcile uuid5 t key first last members.length
    | _, _ => .error .index
  | .attach repositoryId lineageId sequence =>
    .ok { t with
      repositories := Rows.updateWhere (fun row => row.id = repositoryId)
        (fun row => { row with lineageId := some lineageId, sequence := some sequence })
        t.repositories }

/-- Statements, one after the other. -/
def run : Tables → List Statement → Except MigrationError Tables
  | t, [] => .ok t
  | t, statement :: rest => (execute uuid5 t statement).bind (fun t' => run t' rest)

/-- The rows as they are read. -/
def Tables.selected (t : Tables) : List SelectedRow :=
  t.repositories.map RepositoryRow.toSelectedRow

def failed (message : Str) : Except MigrationError Unit :=
  .error (.verification ("Lineage backfill verification failed: ".toList ++ message))

/-- The checks of a member. -/
def verifyMember (t : Tables) (key : GroupKey) (member : SelectedRow) (index : Nat)
    (seen : List Nat) : Except MigrationError Unit :=
  let lineageId := lineageIdFor uuid5 key
  match t.repositories.find? (fun row => row.id = member.id) with
  | none => failed
      ("repository ".toList ++ member.id ++ " is not correctly attached to lineage ".toList
      ++ lineageId ++ ".".toList)
  | some row =>
    if row.lineageId ≠ some lineageId ∨ row.sequence ≠ some index then
      failed ("repository ".toList ++ member.id ++
        " is not correctly attached to lineage ".toList ++
        lineageId ++ ".".toList)
    else if row.ownerId ≠ key.ownerId then
      failed ("repository ".toList ++ member.id ++ " owner mismatch.".toList)
    else if index ∈ seen then
      failed ("duplicate sequence in lineage ".toList ++ lineageId ++ ".".toList)
    else .ok ()

/-- The checks of the members of a group, from an index on. -/
def verifyMembers (t : Tables) (key : GroupKey) :
    List SelectedRow → Nat → List Nat → Except MigrationError Unit
  | [], _, _ => .ok ()
  | member :: rest, index, seen => do
    verifyMember uuid5 t key member index seen
    verifyMembers t key rest (index + 1) (index :: seen)

/-- The checks of a group. -/
def verifyGroup (t : Tables) (key : GroupKey) (members : List SelectedRow) :
    Except MigrationError Unit :=
  let lineageId := lineageIdFor uuid5 key
  match t.lineages.find? (fun l => l.id = lineageId) with
  | none => failed (lineageId ++ " is missing after backfill.".toList)
  | some row =>
    if row.ownerId ≠ key.ownerId then failed (lineageId ++ " has the wrong owner.".toList)
    else if row.latestRepositoryId ≠ members.getLast?.map SelectedRow.id then
      failed (lineageId ++ " latest pointer is wrong.".toList)
    else if row.nextSequence ≠ members.length + 1 then
      failed (lineageId ++ " next_sequence is wrong.".toList)
    else verifyMembers uuid5 t key members 1 []

/-- The rows that carry an attachment. -/
def stray (t : Tables) : Nat :=
  t.repositories.countP (fun row => row.lineageId.isSome || row.sequence.isSome)

/-- `_verify_backfill`. -/
def verifyBackfill (t : Tables) (gs : List (GroupKey × List SelectedRow)) :
    Except MigrationError Unit := do
  gs.forM (fun g => verifyGroup uuid5 t g.1 g.2)
  let touched := (gs.map (fun g => g.2.length)).sum
  if stray t ≠ touched then
    failed (Nat.toDigits 10 (stray t) ++
      " repositories carry a lineage attachment, expected exactly ".toList ++
      Nat.toDigits 10 touched ++ " from the eligible groups.".toList)
  else .ok ()

/-- The columns are new, and nothing is attached. -/
def fresh (row : SelectedRow) : RepositoryRow :=
  { toSelectedRow := row, lineageId := none, sequence := none }

def start (rows : List SelectedRow) : Tables :=
  { repositories := rows.map fresh, lineages := [] }

/-- The tables after runs that were interrupted, each after some of its statements. -/
inductive Attempted (rows : List SelectedRow) : Tables → Prop
  | start : Attempted rows (start rows)
  | interrupted {t t' : Tables} {order : List SelectedRow} (n : Nat) :
      Attempted rows t → order.Perm t.selected →
      run uuid5 t ((statements uuid5 (eligibleGroups order)).take n) = .ok t' →
      Attempted rows t'

end Definitions

section Keys

theorem delimited_append_inj {s s' t t' : Str} (h : delimited s ++ t = delimited s' ++ t') :
    s = s' ∧ t = t' := by
  have hfree : ∀ n : Nat, ':' ∉ Nat.toDigits 10 n := fun n => UrlParse.not_mem_digits (by decide)
  have hcut := congrArg (UrlParse.cut ':') h
  simp only [delimited, append_assoc, cons_append,
    UrlParse.cut_append (hfree _), Prod.mk.injEq, Option.some.injEq] at hcut
  have hlength : s.length = s'.length := by
    have hboth := congrArg (fun digits => Nat.ofDigitChars 10 digits 0) hcut.1
    simpa using hboth
  exact append_inj hcut.2 hlength

/-- The text of a key says what the key is. -/
theorem encode_injective : Function.Injective encode := by
  rintro ⟨owner, source, branch⟩ ⟨owner', source', branch'⟩ h
  rcases delimited_append_inj h with ⟨howner, h⟩
  rcases delimited_append_inj (List.cons.inj h).2 with ⟨hsource, h⟩
  have hlast : delimited branch ++ [] = delimited branch' ++ [] := by
    rw [append_nil, append_nil, (List.cons.inj h).2]
  exact GroupKey.mk.injEq _ _ _ _ _ _ ▸ ⟨howner, hsource, (delimited_append_inj hlast).1⟩

/-- A row of a group. -/
structure EligibleFor (row : SelectedRow) (key : GroupKey) : Prop where
  source : row.source = "github".toList
  kind : row.revisionKind = some "git".toList
  value : ∃ value, row.revisionValue = some value ∧ isGitSha value = true
  branch : row.revisionRef = some key.canonicalBranch
  accepted : isRef key.canonicalBranch = true
  url : canonicalGithubSource row.sourceUrl = some key.canonicalSourceKey
  owner : row.ownerId = key.ownerId

variable {key : GroupKey} {rows : List SelectedRow} {r r' : SelectedRow}

theorem eligibleKey_eq_some {row : SelectedRow} :
    eligibleKey row = some key ↔ EligibleFor row key := by
  unfold eligibleKey
  constructor
  · intro h
    split at h
    · cases h
    rename_i hkind
    split at h
    · cases h
    rename_i hvalue
    rw [not_or, not_ne_iff, not_ne_iff] at hkind
    rw [Bool.not_eq_false, Option.any_eq_true] at hvalue
    split at h
    · cases h
    rename_i branch hbranch
    split at h
    · cases h
    rename_i haccepted
    rcases Option.map_eq_some_iff.mp h with ⟨source, hurl, rfl⟩
    exact ⟨hkind.1, hkind.2, hvalue, hbranch, Bool.eq_true_of_not_eq_false haccepted, hurl, rfl⟩
  · rintro ⟨hsource, hkind, hvalue, hbranch, haccepted, hurl, howner⟩
    have hnot : ¬ (row.source ≠ "github".toList ∨ row.revisionKind ≠ some "git".toList) := by
      rw [not_or, not_ne_iff, not_ne_iff]
      exact ⟨hsource, hkind⟩
    have hany : row.revisionValue.any isGitSha = true := (Option.any_eq_true _ _).mpr hvalue
    rw [if_neg hnot, if_neg (by rw [hany]; exact Bool.false_ne_true.symm), hbranch]
    simp [haccepted, hurl, howner]

/-- The members of a group, in their order. -/
def membersOf (rows : List SelectedRow) (key : GroupKey) : List SelectedRow :=
  sortBy memberKey (group eligibleKey rows key)

theorem mem_membersOf : r ∈ membersOf rows key ↔ r ∈ rows ∧ eligibleKey r = some key := by
  simp [membersOf, SortKeys.mem_sortBy, group]

theorem memberKey_id (h : memberKey r = memberKey r') : r.id = r'.id :=
  SortKeys.codePoints_injective (Prod.mk.inj (toLex.injective h)).2

theorem eq_of_id_eq (hids : (rows.map SelectedRow.id).Nodup) (hr : r ∈ rows) (hr' : r' ∈ rows)
    (h : r.id = r'.id) : r = r' :=
  Rows.eq_of_key_eq hids hr hr' h

/-- The members do not depend on the order of the rows. -/
theorem membersOf_perm {order : List SelectedRow} (hids : (rows.map SelectedRow.id).Nodup)
    (hp : order.Perm rows) (key : GroupKey) : membersOf order key = membersOf rows key := by
  refine (SortKeys.sortBy_eq_of_perm (hp.symm.filter _) fun r hr r' hr' h => ?_).symm
  exact eq_of_id_eq hids (mem_of_mem_filter hr) (mem_of_mem_filter hr') (memberKey_id h)

theorem nodup_membersOf (hids : (rows.map SelectedRow.id).Nodup) (key : GroupKey) :
    (membersOf rows key).Nodup :=
  (SortKeys.perm_sortBy _ _).nodup_iff.mpr ((List.Nodup.of_map _ hids).filter _)

theorem membersOf_ne_nil : membersOf rows key ≠ [] ↔ group eligibleKey rows key ≠ [] := by
  rw [ne_eq, ne_eq, membersOf, ← length_eq_zero_iff, SortKeys.length_sortBy,
    length_eq_zero_iff]

theorem mem_eligibleGroups {members : List SelectedRow} : (key, members) ∈ eligibleGroups rows ↔
      members = membersOf rows key ∧ membersOf rows key ≠ [] := by
  simp only [eligibleGroups, mem_map, Prod.exists, Prod.mk.injEq]
  constructor
  · rintro ⟨k, ms, hmem, rfl, rfl⟩
    rcases Grouping.mem_groups.mp hmem with ⟨hne, rfl⟩
    exact ⟨rfl, membersOf_ne_nil.mpr hne⟩
  · rintro ⟨rfl, hne⟩
    exact ⟨key, _, Grouping.mem_groups.mpr ⟨membersOf_ne_nil.mp hne, rfl⟩, rfl, rfl⟩

variable (uuid5 : Str → Str)

/-- Different groups of a table have different identifiers. -/
def NoCollision (rows : List SelectedRow) : Prop :=
  ∀ r ∈ rows, ∀ r' ∈ rows, ∀ key key', eligibleKey r = some key → eligibleKey r' = some key' →
    uuid5 (encode key) = uuid5 (encode key') → encode key = encode key'

variable {uuid5}

theorem key_of_lineageIdFor (h : NoCollision uuid5 rows) {key' : GroupKey}
    (hne : membersOf rows key ≠ []) (hne' : membersOf rows key' ≠ [])
    (hid : lineageIdFor uuid5 key = lineageIdFor uuid5 key') : key = key' := by
  rcases exists_mem_of_ne_nil _ hne with ⟨r, hr⟩
  rcases exists_mem_of_ne_nil _ hne' with ⟨r', hr'⟩
  have hr := mem_membersOf.mp hr
  have hr' := mem_membersOf.mp hr'
  exact encode_injective (h r hr.1 r' hr'.1 key key' hr.2 hr'.2 hid)

end Keys

section Runs

variable (uuid5 : Str → Str) (rows : List SelectedRow)

/-- A row as it is to be at the end. -/
def attachedRow (r : SelectedRow) : RepositoryRow :=
  match eligibleKey r with
  | none => fresh r
  | some key =>
    { toSelectedRow := r
      lineageId := some (lineageIdFor uuid5 key)
      sequence := some ((membersOf rows key).idxOf r + 1) }

/-- The lineage of a group. -/
def LineageOf (key : GroupKey) (l : LineageRow) : Prop :=
  ∃ first last, (membersOf rows key).head? = some first ∧
    (membersOf rows key).getLast? = some last ∧
    l = newLineage uuid5 key first last (membersOf rows key).length

/-- The tables after the statements of some members and of some groups. -/
structure Underway (done : List Str) (keys : List GroupKey) (t : Tables) : Prop where
  repositories : t.repositories =
    rows.map (fun r => if r.id ∈ done then attachedRow uuid5 rows r else fresh r)
  lineages : ∀ l, l ∈ t.lineages ↔ ∃ key ∈ keys, LineageOf uuid5 rows key l
  nodup : (t.lineages.map LineageRow.id).Nodup

/-- The tables at the end. -/
structure Settled (t : Tables) : Prop where
  repositories : t.repositories = rows.map (attachedRow uuid5 rows)
  lineages : ∀ l, l ∈ t.lineages ↔ ∃ key, LineageOf uuid5 rows key l
  nodup : (t.lineages.map LineageRow.id).Nodup

/-- A statement that a run executes. -/
def Planned : Statement → Prop
  | .reconcile key members => members = membersOf rows key ∧ membersOf rows key ≠ []
  | .attach repositoryId lineageId sequence => ∃ r ∈ rows, r.id = repositoryId ∧
      attachedRow uuid5 rows r = ⟨r, some lineageId, some sequence⟩

/-- The members that a statement is about. -/
def Statement.ids : Statement → List Str
  | .reconcile _ _ => []
  | .attach repositoryId _ _ => [repositoryId]

/-- The group that a statement is about. -/
def Statement.keys : Statement → List GroupKey
  | .reconcile key _ => [key]
  | .attach _ _ _ => []

variable {uuid5 rows}

theorem attachedRow_selected (r : SelectedRow) :
    (attachedRow uuid5 rows r).toSelectedRow = r := by
  unfold attachedRow
  split
  · rfl
  · rfl

variable {r : SelectedRow} {key : GroupKey} {l : LineageRow} {done : List Str}
  {keys : List GroupKey} {t : Tables} {order : List SelectedRow} {st : Statement}

theorem attachedRow_some (h : eligibleKey r = some key) :
    attachedRow uuid5 rows r = ⟨r, some (lineageIdFor uuid5 key),
      some ((membersOf rows key).idxOf r + 1)⟩ := by
  unfold attachedRow
  rw [h]

theorem attachedRow_none (h : eligibleKey r = none) : attachedRow uuid5 rows r = fresh r := by
  unfold attachedRow
  rw [h]

theorem LineageOf.ne_nil (h : LineageOf uuid5 rows key l) : membersOf rows key ≠ [] := by
  rcases h with ⟨first, _, hfirst, _⟩
  intro hnil
  rw [hnil] at hfirst
  cases hfirst

theorem LineageOf.id_eq (h : LineageOf uuid5 rows key l) : l.id = lineageIdFor uuid5 key := by
  rcases h with ⟨_, _, _, _, rfl⟩
  rfl

theorem LineageOf.unique {l' : LineageRow} (h : LineageOf uuid5 rows key l)
    (h' : LineageOf uuid5 rows key l') : l = l' := by
  rcases h with ⟨first, last, hfirst, hlast, rfl⟩
  rcases h' with ⟨first', last', hfirst', hlast', rfl⟩
  rw [Option.some.inj (hfirst.symm.trans hfirst'), Option.some.inj (hlast.symm.trans hlast')]

theorem exists_lineageOf (uuid5 : Str → Str) (h : membersOf rows key ≠ []) :
    ∃ l, LineageOf uuid5 rows key l :=
  ⟨_, (membersOf rows key).head h, (membersOf rows key).getLast h, List.head?_eq_some_head h,
    List.getLast?_eq_some_getLast h, rfl⟩

theorem lineageOf_pair {key' : GroupKey} (h : LineageOf uuid5 rows key l)
    (howner : l.ownerId = key'.ownerId) (hsource : l.canonicalSourceKey = key'.canonicalSourceKey)
    (hbranch : l.canonicalBranch = key'.canonicalBranch) : key = key' := by
  rcases h with ⟨_, _, _, _, rfl⟩
  exact GroupKey.mk.injEq _ _ _ _ _ _ ▸ ⟨howner, hsource, hbranch⟩

theorem Underway.selected (h : Underway uuid5 rows done keys t) : t.selected = rows := by
  rw [Tables.selected, h.repositories, map_map]
  refine (map_congr_left fun r _ => ?_).trans (map_id rows)
  change (if r.id ∈ done then attachedRow uuid5 rows r else fresh r).toSelectedRow = r
  split
  · exact attachedRow_selected r
  · rfl

/-- The statement of a lineage that is there writes what is there, and otherwise it adds
    the row. -/
theorem reconcile_planned (hcollision : NoCollision uuid5 rows)
    (h : Underway uuid5 rows done keys t) {first last : SelectedRow}
    (hfirst : (membersOf rows key).head? = some first)
    (hlast : (membersOf rows key).getLast? = some last) :
    ∃ t', reconcile uuid5 t key first last (membersOf rows key).length = .ok t' ∧
      Underway uuid5 rows done (key :: keys) t' := by
  have hof : LineageOf uuid5 rows key
      (newLineage uuid5 key first last (membersOf rows key).length) :=
    ⟨first, last, hfirst, hlast, rfl⟩
  have hsame : ∀ l ∈ t.lineages, l.id = lineageIdFor uuid5 key →
      l = newLineage uuid5 key first last (membersOf rows key).length := by
    intro l hl hid
    rcases (h.lineages l).mp hl with ⟨key', _, hof'⟩
    rw [hof'.id_eq] at hid
    have hkey := key_of_lineageIdFor hcollision hof'.ne_nil hof.ne_nil hid
    rw [hkey] at hof'
    exact hof'.unique hof
  unfold reconcile
  -- A lineage of that id is the planned one already, so the update changes nothing.
  by_cases hany : t.lineages.any (fun l => l.id = lineageIdFor uuid5 key)
  · rw [if_pos hany]
    have hwrite : Rows.updateWhere (fun l => l.id = lineageIdFor uuid5 key)
        (fun l => { l with
          latestRepositoryId := some last.id
          nextSequence := (membersOf rows key).length + 1 }) t.lineages = t.lineages := by
      refine Rows.updateWhere_same fun l hl hid => ?_
      rw [hsame l hl (of_decide_eq_true hid)]
      rfl
    rw [hwrite]
    refine ⟨_, rfl, h.repositories, fun l => ?_, h.nodup⟩
    simp only [mem_cons, exists_eq_or_imp, ← h.lineages]
    constructor
    · exact .inr
    · rintro (hnew | hold)
      · rcases any_eq_true.mp hany with ⟨l', hl', hid⟩
        rw [hnew.unique hof, ← hsame l' hl' (of_decide_eq_true hid)]
        exact hl'
      · exact hold
  · rw [if_neg hany]
    -- Otherwise nobody has its owner, its source and its branch, and it is inserted.
    have hnone : ∀ l ∈ t.lineages, l.id ≠ lineageIdFor uuid5 key := by
      intro l hl hid
      exact hany (any_eq_true.mpr ⟨l, hl, decide_eq_true hid⟩)
    have hpair : hasPair t.lineages key = false := by
      rw [hasPair, any_eq_false]
      intro l hl htaken
      simp only [Bool.and_eq_true, decide_eq_true_eq] at htaken
      rcases (h.lineages l).mp hl with ⟨key', _, hof'⟩
      have hkey := lineageOf_pair hof' htaken.1.1 htaken.1.2 htaken.2
      rw [hkey] at hof'
      exact hnone l hl hof'.id_eq
    rw [if_neg (by rw [hpair]; exact Bool.false_ne_true)]
    refine ⟨_, rfl, h.repositories, fun l => ?_, ?_⟩
    · rw [mem_append, mem_singleton, h.lineages]
      simp only [mem_cons, exists_eq_or_imp]
      constructor
      · rintro (hold | rfl)
        · exact .inr hold
        · exact .inl hof
      · rintro (hnew | hold)
        · exact .inr (hnew.unique hof)
        · exact .inl hold
    · rw [map_append, nodup_append]
      refine ⟨h.nodup, nodup_singleton _, fun id hid id' hid' => ?_⟩
      rcases mem_map.mp hid with ⟨l, hl, rfl⟩
      rw [map_singleton, mem_singleton] at hid'
      rw [hid']
      exact hnone l hl

/-- The statement of a member writes its row. -/
theorem attach_planned (hids : (rows.map SelectedRow.id).Nodup)
    (h : Underway uuid5 rows done keys t) {repositoryId lineageId : Str} {sequence : Nat}
    (hplanned : Planned uuid5 rows (.attach repositoryId lineageId sequence)) :
    ∃ t', execute uuid5 t (.attach repositoryId lineageId sequence) = .ok t' ∧
      Underway uuid5 rows (repositoryId :: done) keys t' := by
  rcases hplanned with ⟨r₀, hr₀, rfl, hrow⟩
  refine ⟨_, rfl, ?_, h.lineages, h.nodup⟩
  simp only [h.repositories, Rows.updateWhere, map_map]
  refine map_congr_left fun r hr => ?_
  have hid : (if r.id ∈ done then attachedRow uuid5 rows r else fresh r).toSelectedRow = r := by
    split
    · exact attachedRow_selected r
    · rfl
  simp only [Function.comp_apply, hid, mem_cons]
  by_cases he : r.id = r₀.id
  · have hr' := eq_of_id_eq hids hr hr₀ he
    simp [hr', hrow]
  · simp [he]

/-- What one statement of a run does. -/
theorem execute_planned (hids : (rows.map SelectedRow.id).Nodup)
    (hcollision : NoCollision uuid5 rows) (h : Underway uuid5 rows done keys t)
    {statement : Statement} (hplanned : Planned uuid5 rows statement) :
    ∃ t', execute uuid5 t statement = .ok t' ∧
      Underway uuid5 rows (statement.ids ++ done) (statement.keys ++ keys) t' := by
  cases statement with
  | reconcile key members =>
    rcases hplanned with ⟨rfl, hne⟩
    have hfirst := List.head?_eq_some_head hne
    have hlast := List.getLast?_eq_some_getLast hne
    simp only [execute, hfirst, hlast]
    exact reconcile_planned hcollision h hfirst hlast
  | attach repositoryId lineageId sequence => exact attach_planned hids h hplanned

/-- What any number of them do. -/
theorem run_planned (hids : (rows.map SelectedRow.id).Nodup) (hcollision : NoCollision uuid5 rows)
    {sts : List Statement} (hplanned : ∀ st ∈ sts, Planned uuid5 rows st)
    (h : Underway uuid5 rows done keys t) :
    ∃ t' done' keys', run uuid5 t sts = .ok t' ∧ Underway uuid5 rows done' keys' t' ∧
      (∀ id, id ∈ done' ↔ id ∈ done ∨ ∃ st ∈ sts, id ∈ st.ids) ∧
      ∀ key, key ∈ keys' ↔ key ∈ keys ∨ ∃ st ∈ sts, key ∈ st.keys := by
  induction sts generalizing done keys t with
  | nil =>
    refine ⟨t, done, keys, rfl, h, fun id => ?_, fun key => ?_⟩
    · simp
    · simp
  | cons st sts ih =>
    rcases execute_planned hids hcollision h (hplanned st mem_cons_self) with
      ⟨t₁, hstep, h₁⟩
    rcases ih (fun st' hst' => hplanned st' (mem_cons_of_mem st hst')) h₁ with
      ⟨t', done', keys', hrun, h', hdone, hkeys⟩
    refine ⟨t', done', keys', ?_, h', fun id => ?_, fun key => ?_⟩
    · rw [run, hstep]
      exact hrun
    · simp only [hdone, mem_append, mem_cons, exists_eq_or_imp]
      rw [or_assoc, or_left_comm]
    · simp only [hkeys, mem_append, mem_cons, exists_eq_or_imp]
      rw [or_assoc, or_left_comm]

/-- The statements of a run are those of all groups and of all their members. -/
theorem mem_statements :
    st ∈ statements uuid5 (eligibleGroups order) ↔ ∃ key, membersOf order key ≠ [] ∧
      (st = .reconcile key (membersOf order key) ∨ ∃ i r, (membersOf order key)[i]? = some r ∧
        st = .attach r.id (lineageIdFor uuid5 key) (i + 1)) := by
  have hattach : ∀ lineageId members, st ∈ attachments lineageId members ↔
      ∃ (i : Nat) (r : SelectedRow), members[i]? = some r ∧
        st = .attach r.id lineageId (i + 1) := by
    intro lineageId members
    simp only [attachments, mem_map, Prod.exists, mem_zipIdx_iff_le_and_getElem?_sub]
    constructor
    · rintro ⟨r, i, ⟨hle, hr⟩, rfl⟩
      exact ⟨i - 1, r, hr, by rw [Nat.sub_add_cancel hle]⟩
    · rintro ⟨i, r, hr, rfl⟩
      exact ⟨r, i + 1, ⟨Nat.succ_le_succ (Nat.zero_le i), hr⟩, rfl⟩
  simp only [statements, mem_flatMap, Prod.exists, mem_cons, hattach]
  constructor
  · rintro ⟨key, members, hmem, hst⟩
    rcases mem_eligibleGroups.mp hmem with ⟨rfl, hne⟩
    exact ⟨key, hne, hst⟩
  · rintro ⟨key, hne, hst⟩
    exact ⟨key, _, mem_eligibleGroups.mpr ⟨rfl, hne⟩, hst⟩

theorem planned_of_mem (hids : (rows.map SelectedRow.id).Nodup) (hp : order.Perm rows)
    (h : st ∈ statements uuid5 (eligibleGroups order)) : Planned uuid5 rows st := by
  rcases mem_statements.mp h with ⟨key, hne, hst⟩
  rw [membersOf_perm hids hp] at hne hst
  rcases hst with rfl | ⟨i, r, hr, rfl⟩
  · exact ⟨rfl, hne⟩
  · have hmem := mem_membersOf.mp (mem_of_getElem? hr)
    refine ⟨r, hmem.1, rfl, ?_⟩
    have hindex : (membersOf rows key).idxOf r = i := by
      rcases List.getElem?_eq_some_iff.mp hr with ⟨hi, rfl⟩
      exact (nodup_membersOf hids key).idxOf_getElem i hi
    rw [attachedRow_some hmem.2, hindex]

theorem attempted_underway (hids : (rows.map SelectedRow.id).Nodup)
    (hcollision : NoCollision uuid5 rows) (h : Attempted uuid5 rows t) :
    ∃ done keys, Underway uuid5 rows done keys t := by
  induction h with
  | start =>
    refine ⟨[], [], ?_, fun l => ?_, nodup_nil⟩
    · exact map_congr_left fun r _ => (if_neg not_mem_nil).symm
    · simp [start]
  | interrupted n _ hp hrun ih =>
    rcases ih with ⟨done, keys, hunder⟩
    rw [hunder.selected] at hp
    have hplanned := fun st (hst : st ∈ (statements uuid5 (eligibleGroups _)).take n) =>
      planned_of_mem hids hp (mem_of_mem_take hst)
    rcases run_planned hids hcollision hplanned hunder with ⟨t', done', keys', hrun', h', _⟩
    rw [hrun] at hrun'
    rw [Except.ok.inj hrun']
    exact ⟨done', keys', h'⟩

/-- A run that is not interrupted settles the tables, after any others. -/
theorem run_settled (hids : (rows.map SelectedRow.id).Nodup) (hcollision : NoCollision uuid5 rows)
    (h : Attempted uuid5 rows t) (hp : order.Perm t.selected) :
    ∃ t', run uuid5 t (statements uuid5 (eligibleGroups order)) = .ok t' ∧
      Settled uuid5 rows t' := by
  rcases attempted_underway hids hcollision h with ⟨done, keys, hunder⟩
  rw [hunder.selected] at hp
  rcases run_planned hids hcollision (fun st hst => planned_of_mem hids hp hst) hunder with
    ⟨t', done', keys', hrun, h', hdone, hkeys⟩
  refine ⟨t', hrun, ?_, fun l => ?_, h'.nodup⟩
  · rw [h'.repositories]
    refine map_congr_left fun r hr => ?_
    cases hkey : eligibleKey r with
    | none =>
      rw [attachedRow_none hkey]
      split
      · rfl
      · rfl
    | some key =>
      have hmem : r ∈ membersOf order key := by
        rw [membersOf_perm hids hp]
        exact mem_membersOf.mpr ⟨hr, hkey⟩
      rcases List.getElem?_of_mem hmem with ⟨i, hi⟩
      refine if_pos ((hdone r.id).mpr (.inr ⟨.attach r.id (lineageIdFor uuid5 key) (i + 1),
        mem_statements.mpr ⟨key, ne_nil_of_mem hmem, .inr ⟨i, r, hi, rfl⟩⟩, ?_⟩))
      exact mem_cons_self
  · rw [h'.lineages]
    constructor
    · rintro ⟨key, _, hof⟩
      exact ⟨key, hof⟩
    · rintro ⟨key, hof⟩
      refine ⟨key, (hkeys key).mpr (.inr ⟨_, mem_statements.mpr ⟨key, ?_, .inl rfl⟩,
        mem_cons_self⟩), hof⟩
      rw [membersOf_perm hids hp]
      exact hof.ne_nil

end Runs

section Verification

variable {uuid5 : Str → Str} {rows : List SelectedRow} {t : Tables}

theorem forM_ok {α ε : Type} {f : α → Except ε Unit} {l : List α} (h : ∀ a ∈ l, f a = .ok ()) :
    l.forM f = .ok () := by
  induction l with
  | nil => rfl
  | cons a l ih =>
    change (f a).bind (fun _ => l.forM f) = .ok ()
    rw [h a mem_cons_self]
    exact ih (fun b hb => h b (mem_cons_of_mem a hb))

theorem Settled.selected (h : Settled uuid5 rows t) : t.selected = rows := by
  rw [Tables.selected, h.repositories, map_map]
  exact (map_congr_left fun r _ => attachedRow_selected r).trans (map_id rows)

theorem Settled.nodup_ids (h : Settled uuid5 rows t) (hids : (rows.map SelectedRow.id).Nodup) :
    (t.repositories.map (fun row => row.id)).Nodup := by
  have hselected := congrArg (List.map SelectedRow.id) h.selected
  rw [Tables.selected, map_map] at hselected
  rw [show t.repositories.map (fun row => row.id) = rows.map SelectedRow.id from hselected]
  exact hids

/-- The row of a member is found by its identifier. -/
theorem Settled.find?_member (h : Settled uuid5 rows t)
    (hids : (rows.map SelectedRow.id).Nodup) {r : SelectedRow} (hr : r ∈ rows) :
    t.repositories.find? (fun row => row.id = r.id) = some (attachedRow uuid5 rows r) := by
  refine (Rows.find?_eq_some (h.nodup_ids hids)).mpr ⟨?_, ?_⟩
  · rw [h.repositories]
    exact mem_map_of_mem hr
  · exact congrArg SelectedRow.id (attachedRow_selected r)

variable {key : GroupKey} {order : List SelectedRow}

/-- The lineage of a group is found by its identifier. -/
theorem Settled.find?_lineage (h : Settled uuid5 rows t) {l : LineageRow}
    (hof : LineageOf uuid5 rows key l) :
    t.lineages.find? (fun l => l.id = lineageIdFor uuid5 key) = some l :=
  (Rows.find?_eq_some h.nodup).mpr ⟨(h.lineages l).mpr ⟨key, hof⟩, hof.id_eq⟩

theorem verifyMembers_settled (h : Settled uuid5 rows t)
    (hids : (rows.map SelectedRow.id).Nodup) (key : GroupKey) (before members : List SelectedRow)
    (hmembers : membersOf rows key = before ++ members) (seen : List Nat)
    (hseen : ∀ i ∈ seen, i ≤ before.length) :
    verifyMembers uuid5 t key members (before.length + 1) seen = .ok () := by
  induction members generalizing before seen with
  | nil => rfl
  | cons r members ih =>
    have hmem : r ∈ membersOf rows key := by
      rw [hmembers]
      exact mem_append_right _ mem_cons_self
    have hr := mem_membersOf.mp hmem
    have hindex : (membersOf rows key).idxOf r = before.length := by
      have hnodup := nodup_membersOf hids key
      have hget : (membersOf rows key)[before.length]? = some r := by
        rw [hmembers, List.getElem?_append_right (Nat.le_refl _), Nat.sub_self]
        rfl
      rcases List.getElem?_eq_some_iff.mp hget with ⟨hi, he⟩
      rw [← he]
      exact hnodup.idxOf_getElem _ hi
    have hunseen : before.length + 1 ∉ seen := by
      intro hin
      have hle := hseen _ hin
      omega
    have howner : r.ownerId = key.ownerId := (eligibleKey_eq_some.mp hr.2).owner
    have hone : verifyMember uuid5 t key r (before.length + 1) seen = .ok () := by
      simp [verifyMember, h.find?_member hids hr.1, attachedRow_some hr.2, hindex, howner, hunseen]
    rw [verifyMembers, hone]
    have hrest : membersOf rows key = (before ++ [r]) ++ members := by
      rw [hmembers, append_assoc]
      rfl
    have hlength : (before ++ [r]).length = before.length + 1 := by
      rw [length_append, length_singleton]
    have hseen' : ∀ i ∈ (before.length + 1) :: seen, i ≤ (before ++ [r]).length := by
      intro i hi
      rcases mem_cons.mp hi with he | hi
      · omega
      · have hle := hseen i hi
        omega
    have hih := ih _ hrest _ hseen'
    rw [hlength] at hih
    exact hih

theorem verifyGroup_settled (h : Settled uuid5 rows t) (hids : (rows.map SelectedRow.id).Nodup)
    (hne : membersOf rows key ≠ []) : verifyGroup uuid5 t key (membersOf rows key) = .ok () := by
  rcases exists_lineageOf uuid5 hne with ⟨l, hof⟩
  have hfind := h.find?_lineage hof
  rcases hof with ⟨first, last, hfirst, hlast, rfl⟩
  have hmembers := verifyMembers_settled h hids key [] (membersOf rows key) rfl []
    (fun i hi => absurd hi not_mem_nil)
  simp only [verifyGroup, hfind, newLineage, ne_eq, not_true_eq_false, if_false, hlast,
    Option.map_some]
  exact hmembers

/-- As many rows are attached as the groups have members. -/
theorem stray_settled (h : Settled uuid5 rows t) (hp : order.Perm rows) :
    stray t = ((eligibleGroups order).map (fun g => g.2.length)).sum := by
  have hsum : ((eligibleGroups order).map (fun g => g.2.length)).sum =
      ((groups eligibleKey order).map (fun g => g.2.length)).sum := by
    rw [eligibleGroups, map_map]
    refine congrArg List.sum (map_congr_left fun g _ => ?_)
    exact SortKeys.length_sortBy memberKey g.2
  rw [hsum, Grouping.sum_length_groups, hp.countP_eq, stray, h.repositories, countP_map]
  refine countP_congr fun r _ => ?_
  cases hkey : eligibleKey r with
  | none => simp only [Function.comp_apply, attachedRow_none hkey, fresh]; rfl
  | some key => simp only [Function.comp_apply, attachedRow_some hkey]; rfl

/-- The checks pass. -/
theorem verifyBackfill_settled (h : Settled uuid5 rows t) (hids : (rows.map SelectedRow.id).Nodup)
    (hp : order.Perm rows) : verifyBackfill uuid5 t (eligibleGroups order) = .ok () := by
  have hgroups : (eligibleGroups order).forM (fun g => verifyGroup uuid5 t g.1 g.2) = .ok () := by
    refine forM_ok fun g hg => ?_
    rcases mem_eligibleGroups.mp hg with ⟨hmembers, hne⟩
    rw [membersOf_perm hids hp] at hmembers hne
    rw [hmembers]
    exact verifyGroup_settled h hids hne
  have hstray : ¬ stray t ≠ ((eligibleGroups order).map (fun g => g.2.length)).sum :=
    fun hne => hne (stray_settled h hp)
  simp only [verifyBackfill, hgroups, if_neg hstray]
  rfl

end Verification

section Results

/-- The rows of a lineage, in the order in which they were created. -/
def rowsOf (t : Tables) (lineageId : Str) : List RepositoryRow :=
  sortBy (fun row => memberKey row.toSelectedRow)
    (t.repositories.filter (fun row => row.lineageId = some lineageId))

/-- `_find_lineage` of a live import. -/
def findLineage (t : Tables) (ownerId source branch : Str) : Option LineageRow :=
  t.lineages.find? (fun l => l.ownerId = ownerId && l.canonicalSourceKey = source &&
    l.canonicalBranch = branch)

/-- What the tables are like at the end. -/
structure Backfilled (rows : List SelectedRow) (t : Tables) : Prop where
  selected : t.selected = rows
  attached : ∀ row ∈ t.repositories,
    (row.lineageId ≠ none ↔ ∃ key, EligibleFor row.toSelectedRow key) ∧
      (row.lineageId = none ↔ row.sequence = none)
  sequences : ∀ l ∈ t.lineages,
    (rowsOf t l.id).map RepositoryRow.sequence =
      (List.range' 1 (rowsOf t l.id).length).map some
  latest : ∀ l ∈ t.lineages, rowsOf t l.id ≠ [] ∧
    l.latestRepositoryId = (rowsOf t l.id).getLast?.map (fun row => row.id)
  next : ∀ l ∈ t.lineages, l.nextSequence = (rowsOf t l.id).length + 1
  found : ∀ row ∈ t.repositories, ∀ key, EligibleFor row.toSelectedRow key →
    ∃ l, findLineage t key.ownerId key.canonicalSourceKey key.canonicalBranch = some l ∧
      row.lineageId = some l.id
  same : ∀ row ∈ t.repositories, ∀ row' ∈ t.repositories, ∀ key key',
    EligibleFor row.toSelectedRow key → EligibleFor row'.toSelectedRow key' →
      (row.lineageId = row'.lineageId ↔ key = key')

/-- What live imports make of the rows with plain URLs. -/
structure LiveAgrees (t : Tables) : Prop where
  attached : ∀ row ∈ t.repositories, ∀ url owner repo, row.sourceUrl = some url →
    Github.Plain url owner repo → (row.lineageId ≠ none ↔
      row.source = "github".toList ∧ row.revisionKind = some "git".toList ∧
        (∃ value, row.revisionValue = some value ∧ isGitSha value = true) ∧
        (∃ branch, row.revisionRef = some branch ∧ isRef branch = true) ∧
        hasDots owner = false ∧ hasDots repo = false)
  same : ∀ row ∈ t.repositories, ∀ row' ∈ t.repositories, ∀ url owner repo url' owner' repo',
    row.sourceUrl = some url → Github.Plain url owner repo →
    row'.sourceUrl = some url' → Github.Plain url' owner' repo' →
    row.lineageId ≠ none → row'.lineageId ≠ none →
      (row.lineageId = row'.lineageId ↔ row.ownerId = row'.ownerId ∧
        Github.lower owner = Github.lower owner' ∧ Github.lower repo = Github.lower repo' ∧
        row.revisionRef = row'.revisionRef)
  found : ∀ row ∈ t.repositories, ∀ url owner repo branch, row.sourceUrl = some url →
    Github.Plain url owner repo → row.revisionRef = some branch → row.lineageId ≠ none →
      (∀ v, Github.validatePublicUrl url = .ok v → v = url) ∧
        ∃ source l, Github.canonicalGithubSource url = some source ∧
          findLineage t row.ownerId source branch = some l ∧ row.lineageId = some l.id

variable {uuid5 : Str → Str} {rows : List SelectedRow} {t : Tables}

theorem Settled.mem_repositories (h : Settled uuid5 rows t) {row : RepositoryRow} :
    row ∈ t.repositories ↔ ∃ r ∈ rows, attachedRow uuid5 rows r = row := by
  rw [h.repositories, mem_map]

variable {r : SelectedRow} {key : GroupKey}

theorem attachedRow_lineageId :
    EligibleFor r key →
      (attachedRow uuid5 rows r).lineageId = some (lineageIdFor uuid5 key) := by
  intro h
  rw [attachedRow_some (eligibleKey_eq_some.mpr h)]

theorem lineageId_attachedRow (h : (attachedRow uuid5 rows r).lineageId ≠ none) :
    ∃ key, EligibleFor r key := by
  cases hkey : eligibleKey r with
  | none =>
    rw [attachedRow_none hkey] at h
    exact absurd rfl h
  | some key => exact ⟨key, eligibleKey_eq_some.mp hkey⟩

/-- The rows of a lineage are the members of its group. -/
theorem rowsOf_settled (h : Settled uuid5 rows t) (hcollision : NoCollision uuid5 rows)
    (hne : membersOf rows key ≠ []) :
    rowsOf t (lineageIdFor uuid5 key) = (membersOf rows key).map (attachedRow uuid5 rows) := by
  have hfilter : ∀ r ∈ rows, ((attachedRow uuid5 rows r).lineageId = some (lineageIdFor uuid5 key) ↔
      eligibleKey r = some key) := by
    intro r hr
    constructor
    · intro he
      rcases lineageId_attachedRow (by rw [he]; exact Option.some_ne_none _) with ⟨key', hkey'⟩
      rw [attachedRow_lineageId hkey'] at he
      have hmem : r ∈ membersOf rows key' :=
        mem_membersOf.mpr ⟨hr, eligibleKey_eq_some.mpr hkey'⟩
      have hsame := key_of_lineageIdFor hcollision (ne_nil_of_mem hmem) hne (Option.some.inj he)
      rw [← hsame]
      exact eligibleKey_eq_some.mpr hkey'
    · exact fun hkey => attachedRow_lineageId (eligibleKey_eq_some.mp hkey)
  have hrows : t.repositories.filter (fun row => row.lineageId = some (lineageIdFor uuid5 key)) =
      (group eligibleKey rows key).map (attachedRow uuid5 rows) := by
    rw [h.repositories, filter_map, group]
    refine congrArg _ (filter_congr fun r hr => ?_)
    exact decide_eq_decide.mpr (hfilter r hr)
  have hkeys : (fun r => memberKey (attachedRow uuid5 rows r).toSelectedRow) = memberKey :=
    funext fun r => by rw [attachedRow_selected]
  rw [rowsOf, hrows, SortKeys.sortBy_map, hkeys]
  rfl

theorem sequences_members (hids : (rows.map SelectedRow.id).Nodup) (key : GroupKey) :
    ((membersOf rows key).map (attachedRow uuid5 rows)).map RepositoryRow.sequence =
      (List.range' 1 (membersOf rows key).length).map some := by
  refine ext_getElem ?_ fun i hi hi' => ?_
  · simp
  · simp only [length_map] at hi
    have hmem := mem_membersOf.mp (getElem_mem (l := membersOf rows key) hi)
    simp only [getElem_map, getElem_range', attachedRow_some hmem.2,
      (nodup_membersOf hids key).idxOf_getElem i hi]
    congr 1
    omega

/-- A group is looked up by what its rows have in common. -/
theorem findLineage_settled (h : Settled uuid5 rows t) {l : LineageRow}
    (hof : LineageOf uuid5 rows key l) :
    findLineage t key.ownerId key.canonicalSourceKey key.canonicalBranch = some l := by
  cases hfind : findLineage t key.ownerId key.canonicalSourceKey key.canonicalBranch with
  | none =>
    have hl := List.find?_eq_none.mp hfind l ((h.lineages l).mpr ⟨key, hof⟩)
    rcases hof with ⟨_, _, _, _, rfl⟩
    simp only [newLineage, decide_true, Bool.and_self, not_true_eq_false] at hl
  | some l' =>
    have hmem := mem_of_find?_eq_some hfind
    have hcond := List.find?_some hfind
    simp only [Bool.and_eq_true, decide_eq_true_eq] at hcond
    rcases (h.lineages l').mp hmem with ⟨key', hof'⟩
    have hkey := lineageOf_pair hof' hcond.1.1 hcond.1.2 hcond.2
    rw [hkey] at hof'
    rw [hof'.unique hof]

theorem settled_backfilled (h : Settled uuid5 rows t) (hids : (rows.map SelectedRow.id).Nodup)
    (hcollision : NoCollision uuid5 rows) : Backfilled rows t where
  selected := h.selected
  attached row hrow := by
    rcases h.mem_repositories.mp hrow with ⟨r, _, rfl⟩
    -- a row is attached exactly if it has a source key
    rw [attachedRow_selected]
    cases hkey : eligibleKey r with
    | none =>
      rw [attachedRow_none hkey]
      refine ⟨⟨fun hne => absurd rfl hne, fun ⟨key, he⟩ => ?_⟩, ⟨fun _ => rfl, fun _ => rfl⟩⟩
      rw [eligibleKey_eq_some.mpr he] at hkey
      cases hkey
    | some key =>
      rw [attachedRow_some hkey]
      exact ⟨⟨fun _ => ⟨key, eligibleKey_eq_some.mp hkey⟩, fun _ => Option.some_ne_none _⟩,
        ⟨nofun, nofun⟩⟩
  sequences l hl := by
    rcases (h.lineages l).mp hl with ⟨key, hof⟩
    rw [hof.id_eq, rowsOf_settled h hcollision hof.ne_nil, sequences_members hids, length_map]
  latest l hl := by
    rcases (h.lineages l).mp hl with ⟨key, hof⟩
    have hne := hof.ne_nil
    rw [hof.id_eq, rowsOf_settled h hcollision hne]
    rcases hof with ⟨first, last, _, hlast, rfl⟩
    refine ⟨fun hnil => hne (map_eq_nil_iff.mp hnil), ?_⟩
    rw [List.getLast?_map, hlast]
    exact congrArg some (congrArg SelectedRow.id (attachedRow_selected last)).symm
  next l hl := by
    rcases (h.lineages l).mp hl with ⟨key, hof⟩
    rw [hof.id_eq, rowsOf_settled h hcollision hof.ne_nil, length_map]
    rcases hof with ⟨_, _, _, _, rfl⟩
    rfl
  found row hrow key hkey := by
    rcases h.mem_repositories.mp hrow with ⟨r, hr, rfl⟩
    rw [attachedRow_selected] at hkey
    -- the lineage of a key is the one made for its members
    have hmem : r ∈ membersOf rows key := mem_membersOf.mpr ⟨hr, eligibleKey_eq_some.mpr hkey⟩
    rcases exists_lineageOf uuid5 (ne_nil_of_mem hmem) with ⟨l, hof⟩
    refine ⟨l, findLineage_settled h hof, ?_⟩
    rw [attachedRow_lineageId hkey, hof.id_eq]
  same row hrow row' hrow' key key' hkey hkey' := by
    rcases h.mem_repositories.mp hrow with ⟨r, hr, rfl⟩
    rcases h.mem_repositories.mp hrow' with ⟨r', hr', rfl⟩
    rw [attachedRow_selected] at hkey hkey'
    rw [attachedRow_lineageId hkey, attachedRow_lineageId hkey']
    constructor
    · intro he
      -- two keys get one id only if they are one key
      exact key_of_lineageIdFor hcollision
        (ne_nil_of_mem (mem_membersOf.mpr ⟨hr, eligibleKey_eq_some.mpr hkey⟩))
        (ne_nil_of_mem (mem_membersOf.mpr ⟨hr', eligibleKey_eq_some.mpr hkey'⟩))
        (Option.some.inj he)
    · rintro rfl
      rfl

theorem url_of_plain {row : SelectedRow} (h : EligibleFor row key) {url owner repo : Str}
    (hurl : row.sourceUrl = some url) (hplain : Github.Plain url owner repo) :
    hasDots owner = false ∧ hasDots repo = false ∧
      key.canonicalSourceKey = Github.sourceKey owner repo := by
  have hkey := h.url
  rw [hurl, canonicalGithubSource_plain hplain, Option.ite_none_right_eq_some] at hkey
  exact ⟨hkey.1.1, hkey.1.2, (Option.some.inj hkey.2).symm⟩

theorem backfilled_live (h : Backfilled rows t) : LiveAgrees t where
  attached row hrow url owner repo hurl hplain := by
    rw [(h.attached row hrow).1]
    constructor
    · rintro ⟨key, hkey⟩
      have hparts := url_of_plain hkey hurl hplain
      exact ⟨hkey.source, hkey.kind, hkey.value, ⟨_, hkey.branch, hkey.accepted⟩, hparts.1,
        hparts.2.1⟩
    · rintro ⟨hsource, hkind, hvalue, ⟨branch, hbranch, haccepted⟩, howner, hrepo⟩
      refine ⟨⟨row.ownerId, Github.sourceKey owner repo, branch⟩, hsource, hkind, hvalue, hbranch,
        haccepted, ?_, rfl⟩
      rw [hurl, canonicalGithubSource_plain hplain, if_pos ⟨howner, hrepo⟩]
  same row hrow row' hrow' url owner repo url' owner' repo' hurl hplain hurl' hplain' hne hne' := by
    rcases (h.attached row hrow).1.mp hne with ⟨key, hkey⟩
    rcases (h.attached row' hrow').1.mp hne' with ⟨key', hkey'⟩
    have hparts := (url_of_plain hkey hurl hplain).2.2
    have hparts' := (url_of_plain hkey' hurl' hplain').2.2
    have hsources : Github.sourceKey owner repo = Github.sourceKey owner' repo' ↔
        Github.lower owner = Github.lower owner' ∧ Github.lower repo = Github.lower repo' :=
      sourceKey_eq_iff hplain.ownerName hplain'.ownerName
    rw [h.same row hrow row' hrow' key key' hkey hkey', hkey.owner, hkey'.owner, hkey.branch,
      hkey'.branch]
    constructor
    · rintro rfl
      have hboth := hsources.mp (hparts.symm.trans hparts')
      exact ⟨rfl, hboth.1, hboth.2, rfl⟩
    · rintro ⟨hid, howner, hrepo, hbranch⟩
      have hsource := hsources.mpr ⟨howner, hrepo⟩
      rw [← hparts, ← hparts'] at hsource
      exact GroupKey.mk.injEq _ _ _ _ _ _ ▸ ⟨hid, hsource, Option.some.inj hbranch⟩
  found row hrow url owner repo branch hurl hplain hbranch hne := by
    refine ⟨fun v hv => Github.validatePublicUrl_plain hplain hv, ?_⟩
    rcases (h.attached row hrow).1.mp hne with ⟨key, hkey⟩
    rcases h.found row hrow key hkey with ⟨l, hfind, hid⟩
    refine ⟨_, l, Github.canonicalGithubSource_plain hplain, ?_, hid⟩
    have hsame : key.canonicalBranch = branch :=
      Option.some.inj (hkey.branch.symm.trans hbranch)
    rw [hkey.owner, ← (url_of_plain hkey hurl hplain).2.2, ← hsame]
    exact hfind

/-- After any interrupted runs, a run of the backfill and its checks do not raise. The tables
    at the end are the same whatever runs there were. Live imports find the lineages of the
    rows whose URLs are plain, and on the URLs that `validate_public_url` returns, the keys
    agree on no others. -/
theorem backfill_agrees (hids : (rows.map SelectedRow.id).Nodup)
    (hcollision : NoCollision uuid5 rows) :
    (∀ t order, Attempted uuid5 rows t → order.Perm t.selected →
      ∃ t', run uuid5 t (statements uuid5 (eligibleGroups order)) = .ok t' ∧
        verifyBackfill uuid5 t' (eligibleGroups order) = .ok () ∧
        Backfilled rows t' ∧ LiveAgrees t') ∧
    (∀ t order u order' t' u', Attempted uuid5 rows t → order.Perm t.selected →
      Attempted uuid5 rows u → order'.Perm u.selected →
      run uuid5 t (statements uuid5 (eligibleGroups order)) = .ok t' →
      run uuid5 u (statements uuid5 (eligibleGroups order')) = .ok u' →
      t'.repositories = u'.repositories ∧ t'.lineages.Perm u'.lineages) ∧
    ∀ raw url, Github.validatePublicUrl raw = .ok url →
      ((∃ key, canonicalGithubSource (some url) = some key ∧
          Github.canonicalGithubSource url = some key) ↔
        ∃ owner repo, Github.Plain url owner repo ∧ hasDots owner = false ∧
          hasDots repo = false) := by
  refine ⟨fun t order h hp => ?_, fun t order u order' t' u' h hp h' hp' hrun hrun' => ?_,
    fun raw url hvalid => agree_iff hvalid⟩
  · rcases run_settled hids hcollision h hp with ⟨t', hrun, hsettled⟩
    rcases attempted_underway hids hcollision h with ⟨_, _, hunder⟩
    rw [hunder.selected] at hp
    have hback := settled_backfilled hsettled hids hcollision
    exact ⟨t', hrun, verifyBackfill_settled hsettled hids hp, hback, backfilled_live hback⟩
  · rcases run_settled hids hcollision h hp with ⟨t₁, hrun₁, hsettled⟩
    rcases run_settled hids hcollision h' hp' with ⟨u₁, hrun₂, hsettled'⟩
    rw [hrun] at hrun₁
    rw [hrun'] at hrun₂
    rw [← Except.ok.inj hrun₁] at hsettled
    rw [← Except.ok.inj hrun₂] at hsettled'
    refine ⟨hsettled.repositories.trans hsettled'.repositories.symm, ?_⟩
    refine (perm_ext_iff_of_nodup (List.Nodup.of_map _ hsettled.nodup)
      (List.Nodup.of_map _ hsettled'.nodup)).mpr fun l => ?_
    rw [hsettled.lineages, hsettled'.lineages]

end Results

section Examples

/-- A row of a GitHub import. -/
def imported (id url : String) (createdAt : Nat) : SelectedRow :=
  { id := id.toList
    ownerId := "ada".toList
    name := "engine".toList
    source := "github".toList
    sourceUrl := some url.toList
    revisionKind := some "git".toList
    revisionValue := some "0123456789abcdef0123456789abcdef01234567".toList
    revisionRef := some "refs/heads/main".toList
    createdAt := createdAt }

/-- Two rows of one repository, in different cases. -/
def sampleRows : List SelectedRow :=
  [imported "r2" "https://github.com/ada/engine" 5, imported "r1" "https://github.com/Ada/Engine" 3]

/-- The backfill of the sample gives its rows the sequences of their creation. -/
theorem backfill_agrees_sample :
    (∃ t, run id (start sampleRows) (statements id (eligibleGroups sampleRows)) = .ok t ∧
      t.repositories.map RepositoryRow.sequence = [some 2, some 1] ∧ LiveAgrees t) := by
  have hids : (sampleRows.map SelectedRow.id).Nodup := by decide
  have hcollision : NoCollision id sampleRows := fun _ _ _ _ _ _ _ _ h => h
  have hall := (backfill_agrees hids hcollision).1 (start sampleRows) sampleRows .start
    (List.Perm.refl _)
  rcases hall with ⟨t, hrun, _, _, hlive⟩
  refine ⟨t, hrun, ?_, hlive⟩
  have hcomputed : (run id (start sampleRows) (statements id (eligibleGroups sampleRows))).map
      (fun t => t.repositories.map RepositoryRow.sequence) = .ok [some 2, some 1] := by
    decide +kernel
  rw [hrun] at hcomputed
  exact Except.ok.inj hcomputed

/-- A URL that is accepted and has two dots in the name of its repository. -/
def dottedRow : SelectedRow :=
  imported "r1" "https://github.com/ada/engine..old" 3

/-- Its row has a commit and a branch, and it is not attached. -/
theorem dotted_not_attached :
    Github.validatePublicUrl "https://github.com/ada/engine..old".toList =
        .ok "https://github.com/ada/engine..old".toList ∧
      isGitSha "0123456789abcdef0123456789abcdef01234567".toList = true ∧
      isRef "refs/heads/main".toList = true ∧
      run id (start [dottedRow]) (statements id (eligibleGroups [dottedRow])) =
        .ok (start [dottedRow]) := by
  decide +kernel

end Examples

end Backfill

end Partha
