import Mathlib.Data.List.Nodup
import Mathlib.Data.List.Perm.Subperm
import Partha.Canonical.Value
import Partha.Library.Checked
import Partha.Library.DepthFirst
import Partha.Library.Grouping
import Partha.Library.Rows

/-!
# The Derivation Graph of a Snapshot

Before a snapshot is sealed, what its edges and assertions are derived from is checked: every
reference names a fact of the snapshot, and no fact is derived from itself, directly or through
others.

The check makes a map from each derived fact to what it is derived from, in which a fact is a
string, its kind and its identity with a colon between them, and searches the map for cycles. No
kind has a colon, so the strings stand for the facts.

## Main definitions

* `Facts`: The facts of a snapshot, as the tables constrain them.
* `validateDerivationGraph`: `_validate_derivation_graph`.
* `Derives`: A fact is derived from another.

## Theorems

* `outgoing_edge`: The edges of the map are the references of the derived facts.
* `derivation_graph_checked`: The check succeeds iff every reference is there and there is no
  cycle, and fails with its own error otherwise.
-/

namespace Partha

namespace DerivationGraph

open Canonical Checked List

section Definitions

/-- The kinds that a derivation can refer to. -/
inductive RefKind where
  | observation
  | node
  | edge
  | assertion
  deriving DecidableEq, Repr

def RefKind.name : RefKind → Str
  | .observation => "observation".toList
  | .node => "node".toList
  | .edge => "edge".toList
  | .assertion => "assertion".toList

/-- A row of an edge or an assertion, with its identity. -/
structure FactRow where
  id : Nat
  identity : Str
  deriving DecidableEq, Repr

/-- The row that a derivation is of, in the one of its two columns that is not null. -/
inductive Owner where
  | edge (edgeRef : Nat)
  | assertion (assertionRef : Nat)
  deriving DecidableEq, Repr

/-- `RiDerivation`. -/
structure RiDerivation where
  owner : Owner
  refKind : RefKind
  refIdentity : Str
  deriving DecidableEq, Repr

def RiDerivation.edgeRef (d : RiDerivation) : Option Nat :=
  match d.owner with
  | .edge id => some id
  | .assertion _ => none

def RiDerivation.assertionRef (d : RiDerivation) : Option Nat :=
  match d.owner with
  | .edge _ => none
  | .assertion id => some id

/-- `_Facts`, with the keys and the foreign keys of the tables: a row and an identity occur once
    in a snapshot, and a derivation is of a row of it. -/
structure Facts where
  nodes : List Str
  edges : List FactRow
  assertions : List FactRow
  observations : List Str
  derivations : List RiDerivation
  edgeRows : (edges.map FactRow.id).Nodup
  edgeIds : (edges.map FactRow.identity).Nodup
  assertionRows : (assertions.map FactRow.id).Nodup
  assertionIds : (assertions.map FactRow.identity).Nodup
  edgeOwned : ∀ d ∈ derivations, ∀ id, d.edgeRef = some id → id ∈ edges.map FactRow.id
  assertionOwned : ∀ d ∈ derivations, ∀ id, d.assertionRef = some id →
    id ∈ assertions.map FactRow.id

/-- What is raised: `SnapshotSealError`, or an error of Python. -/
inductive Failure where
  | seal (message : Str)
  | keyError
  | unfinished
  deriving DecidableEq, Repr

/-- The identities of a kind. -/
def Facts.table (facts : Facts) : RefKind → List Str
  | .observation => facts.observations
  | .node => facts.nodes
  | .edge => facts.edges.map FactRow.identity
  | .assertion => facts.assertions.map FactRow.identity

/-- The string that stands for a fact. -/
def tag (kind : RefKind) (identity : Str) : Str :=
  kind.name ++ ':' :: identity

def notResolved (d : RiDerivation) : Str :=
  "derived_from reference ".toList ++ tag d.refKind d.refIdentity ++
    " does not resolve in the snapshot".toList

/-- `resolve`. -/
def resolve (facts : Facts) (reference : RiDerivation) : Except Failure Str :=
  if (facts.table reference.refKind).elem reference.refIdentity then
    .ok (tag reference.refKind reference.refIdentity)
  else .error (.seal (notResolved reference))

/-- An assignment to a key of a dictionary. -/
def put (key : Str) (targets : List Str) : List (Str × List Str) → List (Str × List Str)
  | [] => [(key, targets)]
  | entry :: entries =>
    if entry.1 = key then (key, targets) :: entries else entry :: put key targets entries

/-- `{row.id: row.identity for row in rows}`, the last row first. -/
def identityByRow (rows : List FactRow) : List (Nat × Str) :=
  ((rows.map (fun row => (row.id, row.identity))).reverse)

/-- What is assigned for the derivations of a row. -/
def entry (facts : Facts) (kind : RefKind) (rows : List FactRow)
    (group : Nat × List RiDerivation) : Except Failure (Str × List Str) :=
  match (identityByRow rows).lookup group.1 with
  | none => .error .keyError
  | some identity => do
    let targets ← collect (resolve facts) group.2
    .ok (tag kind identity, targets)

/-- The assignments for the derivations of some rows. -/
def assign (facts : Facts) (kind : RefKind) (rows : List FactRow) (outgoing : List (Str × List Str))
    (groups : List (Nat × List RiDerivation)) : Except Failure (List (Str × List Str)) :=
  groups.foldlM (fun outgoing group => do
    let e ← entry facts kind rows group
    .ok (put e.1 e.2 outgoing)) outgoing

/-- The map from the derived facts to what they are derived from. -/
def outgoing (facts : Facts) : Except Failure (List (Str × List Str)) := do
  let ofEdges ← assign facts .edge facts.edges []
    (Grouping.groups RiDerivation.edgeRef facts.derivations)
  assign facts .assertion facts.assertions ofEdges
    (Grouping.groups RiDerivation.assertionRef facts.derivations)

/-- `_validate_derivation_graph`, with the depth that the search may have. -/
def validateDerivationGraph (depth : Nat) (facts : Facts) : Except Failure Unit := do
  let graph ← outgoing facts
  match DepthFirst.search graph depth with
  | .ok _ => .ok ()
  | .error .cycle => .error (.seal "derivation graph contains a cycle".toList)
  | .error .fuel => .error .unfinished

/-- A derivation is of a fact. -/
def OfFact (facts : Facts) (d : RiDerivation) (f : RefKind × Str) : Prop :=
  (∃ row ∈ facts.edges, d.owner = .edge row.id ∧ f = (.edge, row.identity)) ∨
    ∃ row ∈ facts.assertions, d.owner = .assertion row.id ∧ f = (.assertion, row.identity)

/-- An edge or an assertion is derived from an edge or an assertion. -/
def Derives (facts : Facts) (f f' : RefKind × Str) : Prop :=
  (f'.1 = .edge ∨ f'.1 = .assertion) ∧
    ∃ d ∈ facts.derivations, OfFact facts d f ∧ f' = (d.refKind, d.refIdentity)

/-- What a derivation refers to is in the snapshot. -/
def Present (facts : Facts) (d : RiDerivation) : Prop :=
  d.refIdentity ∈ facts.table d.refKind

end Definitions

section Tags

theorem tag_kind (kind : RefKind) (s : Str) :
    (tag kind s).takeWhile (fun c => c != ':') = kind.name := by
  cases kind with
  | observation => rfl
  | node => rfl
  | edge => rfl
  | assertion => rfl

variable {kind kind' : RefKind}

theorem name_inj (h : kind.name = kind'.name) : kind = kind' := by
  revert h
  cases kind <;> cases kind' <;> decide

/-- A string stands for one fact. -/
theorem tag_inj {s s' : Str} (h : tag kind s = tag kind' s') : kind = kind' ∧ s = s' := by
  have hkind : kind = kind' := name_inj (by rw [← tag_kind kind s, h, tag_kind])
  rw [hkind] at h
  exact ⟨hkind, (List.cons.inj (append_cancel_left h)).2⟩

/-- The string of what a derivation refers to. -/
def refTag (d : RiDerivation) : Str :=
  tag d.refKind d.refIdentity

end Tags

section Assignments

theorem put_new {key : Str} {targets : List Str} {entries : List (Str × List Str)}
    (h : key ∉ entries.map Prod.fst) : put key targets entries = entries ++ [(key, targets)] := by
  induction entries with
  | nil => rfl
  | cons e entries ih =>
    rw [map_cons, mem_cons, not_or] at h
    rw [put, if_neg (fun he => h.1 he.symm), ih h.2]
    rfl

theorem foldl_put {es entries : List (Str × List Str)}
    (h : ((entries ++ es).map Prod.fst).Nodup) :
    es.foldl (fun entries e => put e.1 e.2 entries) entries = entries ++ es := by
  induction es generalizing entries with
  | nil => rw [append_nil]; rfl
  | cons e es ih =>
    have hkey : e.1 ∉ entries.map Prod.fst := by
      rw [map_append, map_cons] at h
      exact fun hmem => disjoint_of_nodup_append h hmem mem_cons_self
    have hsplit : entries ++ e :: es = (entries ++ [e]) ++ es := by
      rw [append_assoc]
      rfl
    rw [foldl_cons, put_new hkey, hsplit]
    exact ih (by rw [← hsplit]; exact h)

variable {facts : Facts}

theorem assign_eq (kind : RefKind) (rows : List FactRow) (entries : List (Str × List Str))
    (groups : List (Nat × List RiDerivation)) :
    assign facts kind rows entries groups = (collect (entry facts kind rows) groups >>= fun es =>
      .ok (es.foldl (fun entries e => put e.1 e.2 entries) entries)) := by
  induction groups generalizing entries with
  | nil => rfl
  | cons group groups ih =>
    rw [assign, foldlM_cons, collect]
    cases he : entry facts kind rows group with
    | error e => rfl
    | ok e =>
      simp only [ok_bind]
      rw [← assign, ih]
      cases collect (entry facts kind rows) groups with
      | error e => rfl
      | ok es => rfl

/-- The identity of a row, or nothing much. -/
def identityOf (rows : List FactRow) (id : Nat) : Str :=
  ((identityByRow rows).lookup id).getD []

variable {rows : List FactRow} {d : RiDerivation} {kind : RefKind} {group : Nat × List RiDerivation}

theorem lookup_identityByRow (hn : (rows.map FactRow.id).Nodup) {id : Nat}
    (hid : id ∈ rows.map FactRow.id) :
    ∃ row ∈ rows, row.id = id ∧ (identityByRow rows).lookup id = some row.identity := by
  rcases mem_map.mp hid with ⟨row, hrow, rfl⟩
  refine ⟨row, hrow, rfl, ?_⟩
  rw [identityByRow, Rows.lookup_map_reverse hn, (Rows.find?_eq_some hn).mpr ⟨hrow, rfl⟩]
  rfl

theorem resolve_present (h : Present facts d) : resolve facts d = .ok (refTag d) :=
  if_pos (elem_iff.mpr h)

theorem resolve_absent (h : ¬ Present facts d) : resolve facts d = .error (.seal (notResolved d)) :=
  if_neg (fun hmem => h (elem_iff.mp hmem))

/-- What is assigned for a group, if what it refers to is there. -/
theorem entry_present (hn : (rows.map FactRow.id).Nodup) (hid : group.1 ∈ rows.map FactRow.id)
    (h : ∀ d ∈ group.2, Present facts d) :
    entry facts kind rows group = .ok (tag kind (identityOf rows group.1), group.2.map refTag) := by
  rcases lookup_identityByRow hn hid with ⟨row, -, -, hlookup⟩
  have hall : collect (resolve facts) group.2 = .ok (group.2.map refTag) :=
    collect_eq_ok.mpr (List.forall₂_map_right_iff.mpr (List.forall₂_same.mpr (fun d hd =>
      resolve_present (h d hd))))
  rw [entry, identityOf, hlookup]
  simp [hall, ok_bind]

/-- The error of a group is that of a reference that is not there. -/
theorem entry_error {e : Failure} (hn : (rows.map FactRow.id).Nodup)
    (hid : group.1 ∈ rows.map FactRow.id) (h : entry facts kind rows group = .error e) :
    ∃ d ∈ group.2, ¬ Present facts d ∧ e = .seal (notResolved d) := by
  rcases lookup_identityByRow hn hid with ⟨row, -, -, hlookup⟩
  rw [entry, hlookup] at h
  cases hall : collect (resolve facts) group.2 with
  | ok targets =>
    simp only [hall, ok_bind] at h
    cases h
  | error e' =>
    simp only [hall, error_bind] at h
    rcases collect_error hall with ⟨d, hd, herror⟩
    by_cases hpresent : Present facts d
    · rw [resolve_present hpresent] at herror
      cases herror
    · rw [resolve_absent hpresent] at herror
      rw [← Except.error.inj h, ← Except.error.inj herror]
      exact ⟨d, hd, hpresent, rfl⟩

theorem entry_ok {e : Str × List Str} (h : entry facts kind rows group = .ok e) :
    ∀ d ∈ group.2, Present facts d := by
  rw [entry] at h
  split at h
  · cases h
  · rcases bind_eq_ok.mp h with ⟨targets, htargets, -⟩
    intro d hd
    rcases collect_ok_iff.mp ⟨targets, htargets⟩ d hd with ⟨s, hs⟩
    by_contra habsent
    rw [resolve_absent habsent] at hs
    cases hs

end Assignments

section Columns

variable {facts : Facts}

/-- What the two columns have in common: a kind of fact, its rows, and which row a derivation
    is of. -/
structure Column (facts : Facts) (kind : RefKind) (rows : List FactRow)
    (column : RiDerivation → Option Nat) : Prop where
  rowsOnce : (rows.map FactRow.id).Nodup
  idsOnce : (rows.map FactRow.identity).Nodup
  owned : ∀ d ∈ facts.derivations, ∀ id, column d = some id → id ∈ rows.map FactRow.id

theorem edgeColumn (facts : Facts) : Column facts .edge facts.edges RiDerivation.edgeRef :=
  ⟨facts.edgeRows, facts.edgeIds, facts.edgeOwned⟩

theorem assertionColumn (facts : Facts) :
    Column facts .assertion facts.assertions RiDerivation.assertionRef :=
  ⟨facts.assertionRows, facts.assertionIds, facts.assertionOwned⟩

variable {kind : RefKind} {rows : List FactRow} {column : RiDerivation → Option Nat}

/-- The entries for the derivations of a column, if what they refer to is there. -/
def entries (facts : Facts) (kind : RefKind) (rows : List FactRow)
    (column : RiDerivation → Option Nat) : List (Str × List Str) :=
  (Grouping.groups column facts.derivations).map
    (fun group => (tag kind (identityOf rows group.1), group.2.map refTag))

variable {group : Nat × List RiDerivation} {d : RiDerivation} {id : Nat}

theorem mem_group (hgroup : group ∈ Grouping.groups column facts.derivations) :
    d ∈ group.2 ↔ d ∈ facts.derivations ∧ column d = some group.1 := by
  rw [(Grouping.mem_groups.mp hgroup).2, Grouping.group, mem_filter, decide_eq_true_eq]

theorem Column.group_owned (h : Column facts kind rows column)
    (hgroup : group ∈ Grouping.groups column facts.derivations) :
    group.1 ∈ rows.map FactRow.id := by
  rcases exists_mem_of_ne_nil _ (Grouping.mem_groups.mp hgroup).1 with ⟨d, hd⟩
  rcases (mem_group hgroup).mp hd with ⟨hmem, hcolumn⟩
  exact h.owned d hmem group.1 hcolumn

theorem Column.collect_present (h : Column facts kind rows column)
    (hall : ∀ d ∈ facts.derivations, Present facts d) :
    collect (entry facts kind rows) (Grouping.groups column facts.derivations) =
      .ok (entries facts kind rows column) :=
  collect_eq_ok.mpr (List.forall₂_map_right_iff.mpr (List.forall₂_same.mpr (fun _ hgroup =>
    entry_present h.rowsOnce (h.group_owned hgroup)
      (fun d hd => hall d ((mem_group hgroup).mp hd).1))))

theorem Column.collect_error (h : Column facts kind rows column) {e : Failure}
    (herror : collect (entry facts kind rows) (Grouping.groups column facts.derivations) =
      .error e) : ∃ d ∈ facts.derivations, ¬ Present facts d ∧ e = .seal (notResolved d) := by
  rcases Checked.collect_error herror with ⟨group, hgroup, hfail⟩
  rcases entry_error h.rowsOnce (h.group_owned hgroup) hfail with ⟨d, hd, habsent, he⟩
  exact ⟨d, ((mem_group hgroup).mp hd).1, habsent, he⟩

theorem Column.collect_ok {es : List (Str × List Str)}
    (hok : collect (entry facts kind rows) (Grouping.groups column facts.derivations) = .ok es)
    (hd : d ∈ facts.derivations) (hid : column d = some id) : Present facts d := by
  have hmem : d ∈ Grouping.group column facts.derivations id :=
    mem_filter.mpr ⟨hd, decide_eq_true hid⟩
  have hgroup : (id, Grouping.group column facts.derivations id) ∈
      Grouping.groups column facts.derivations :=
    Grouping.mem_groups.mpr ⟨ne_nil_of_mem hmem, rfl⟩
  rcases collect_ok_iff.mp ⟨es, hok⟩ _ hgroup with ⟨e, he⟩
  exact entry_ok he d hmem

theorem Column.identityOf_row (h : Column facts kind rows column) (hid : id ∈ rows.map FactRow.id) :
    ∃ row ∈ rows, row.id = id ∧ identityOf rows id = row.identity := by
  rcases lookup_identityByRow h.rowsOnce hid with ⟨row, hrow, hrowid, hlookup⟩
  exact ⟨row, hrow, hrowid, by rw [identityOf, hlookup]; rfl⟩

/-- Each derived fact has one entry. -/
theorem Column.entries_nodup (h : Column facts kind rows column) :
    ((entries facts kind rows column).map Prod.fst).Nodup := by
  rw [entries, map_map]
  refine List.Nodup.map_on ?_
    (List.Nodup.of_map Prod.fst (Grouping.nodup_groups column facts.derivations))
  intro group hgroup group' hgroup' hsame
  rcases h.identityOf_row (h.group_owned hgroup) with ⟨row, hrow, hid, hidentity⟩
  rcases h.identityOf_row (h.group_owned hgroup') with ⟨row', hrow', hid', hidentity'⟩
  have heq : identityOf rows group.1 = identityOf rows group'.1 := (tag_inj hsame).2
  rw [hidentity, hidentity'] at heq
  have hrows := Rows.eq_of_key_eq h.idsOnce hrow hrow' heq
  have hfst : group.1 = group'.1 := by rw [← hid, ← hid', hrows]
  have hsnd : group.2 = group'.2 := by
    rw [(Grouping.mem_groups.mp hgroup).2, (Grouping.mem_groups.mp hgroup').2, hfst]
  exact Prod.ext hfst hsnd

theorem Column.length_entries (h : Column facts kind rows column) :
    (entries facts kind rows column).length ≤ rows.length := by
  have hsub : (Grouping.groups column facts.derivations).map Prod.fst ⊆ rows.map FactRow.id := by
    intro id hid
    rcases mem_map.mp hid with ⟨group, hgroup, rfl⟩
    exact h.group_owned hgroup
  have hle := ((Grouping.nodup_groups column facts.derivations).subperm hsub).length_le
  rw [entries, length_map]
  rw [length_map, length_map] at hle
  exact hle

/-- What the entries have: a derivation of a row, and what it refers to. -/
theorem Column.edge_entries (h : Column facts kind rows column) {a b : Str} :
    DepthFirst.Edge (entries facts kind rows column) a b ↔ ∃ d ∈ facts.derivations,
      ∃ row ∈ rows, column d = some row.id ∧ a = tag kind row.identity ∧ b = refTag d := by
  rw [DepthFirst.edge_iff h.entries_nodup]
  constructor
  · rintro ⟨ts, hentry, hb⟩
    rcases mem_map.mp hentry with ⟨group, hgroup, heq⟩
    rcases Prod.mk.inj heq with ⟨rfl, rfl⟩
    rcases mem_map.mp hb with ⟨d, hd, rfl⟩
    rcases (mem_group hgroup).mp hd with ⟨hmem, hcolumn⟩
    rcases h.identityOf_row (h.group_owned hgroup) with ⟨row, hrow, hid, hidentity⟩
    exact ⟨d, hmem, row, hrow, by rw [hid]; exact hcolumn, by rw [hidentity], rfl⟩
  · rintro ⟨d, hd, row, hrow, hcolumn, rfl, rfl⟩
    have hmem : d ∈ Grouping.group column facts.derivations row.id :=
      mem_filter.mpr ⟨hd, decide_eq_true hcolumn⟩
    have hgroup : (row.id, Grouping.group column facts.derivations row.id) ∈
        Grouping.groups column facts.derivations :=
      Grouping.mem_groups.mpr ⟨ne_nil_of_mem hmem, rfl⟩
    rcases h.identityOf_row (mem_map_of_mem (f := FactRow.id) hrow) with
      ⟨row', hrow', hid, hidentity⟩
    have hsame := Rows.eq_of_key_eq h.rowsOnce hrow' hrow hid
    refine ⟨_, mem_map.mpr ⟨_, hgroup, ?_⟩, mem_map_of_mem (f := refTag) hmem⟩
    rw [hidentity, hsame]

end Columns

section Graph

/-- The map of the derived facts, if what they refer to is there. -/
def graph (facts : Facts) : List (Str × List Str) :=
  entries facts .edge facts.edges RiDerivation.edgeRef ++
    entries facts .assertion facts.assertions RiDerivation.assertionRef

theorem graph_nodup (facts : Facts) : ((graph facts).map Prod.fst).Nodup := by
  rw [graph, map_append]
  refine List.Nodup.append (edgeColumn facts).entries_nodup (assertionColumn facts).entries_nodup ?_
  intro key hedge hassertion
  rcases mem_map.mp hedge with ⟨e, he, rfl⟩
  rcases mem_map.mp he with ⟨group, -, rfl⟩
  rcases mem_map.mp hassertion with ⟨e', he', hsame⟩
  rcases mem_map.mp he' with ⟨group', -, rfl⟩
  exact absurd (tag_inj hsame).1 (fun h => by cases h)

theorem length_graph (facts : Facts) :
    (graph facts).length ≤ facts.edges.length + facts.assertions.length := by
  rw [graph, length_append]
  exact Nat.add_le_add (edgeColumn facts).length_entries (assertionColumn facts).length_entries

variable {a b : Str} {facts : Facts}

theorem edge_append {g g' : List (Str × List Str)} (h : ((g ++ g').map Prod.fst).Nodup) :
    DepthFirst.Edge (g ++ g') a b ↔ DepthFirst.Edge g a b ∨ DepthFirst.Edge g' a b := by
  have hparts := h
  rw [map_append, nodup_append] at hparts
  rw [DepthFirst.edge_iff h, DepthFirst.edge_iff hparts.1, DepthFirst.edge_iff hparts.2.1,
    ← exists_or]
  refine exists_congr (fun ts => ?_)
  rw [mem_append, or_and_right]

/-- The edges of the map are the references of the derived facts. -/
theorem outgoing_edge :
    DepthFirst.Edge (graph facts) a b ↔ ∃ d ∈ facts.derivations, ∃ f, OfFact facts d f ∧
      a = tag f.1 f.2 ∧ b = refTag d := by
  rw [graph, edge_append (graph_nodup facts), (edgeColumn facts).edge_entries,
    (assertionColumn facts).edge_entries]
  have hedge : ∀ d : RiDerivation, ∀ id, d.edgeRef = some id ↔ d.owner = .edge id := by
    intro d id
    rw [RiDerivation.edgeRef]
    cases d.owner with
    | edge id' => simp only [Option.some.injEq, Owner.edge.injEq]
    | assertion id' => simp only [reduceCtorEq]
  have hassertion : ∀ d : RiDerivation, ∀ id,
      d.assertionRef = some id ↔ d.owner = .assertion id := by
    intro d id
    rw [RiDerivation.assertionRef]
    cases d.owner with
    | edge id' => simp only [reduceCtorEq]
    | assertion id' => simp only [Option.some.injEq, Owner.assertion.injEq]
  constructor
  · rintro (⟨d, hd, row, hrow, hcolumn, ha, hb⟩ | ⟨d, hd, row, hrow, hcolumn, ha, hb⟩)
    · exact ⟨d, hd, _, .inl ⟨row, hrow, (hedge d row.id).mp hcolumn, rfl⟩, ha, hb⟩
    · exact ⟨d, hd, _, .inr ⟨row, hrow, (hassertion d row.id).mp hcolumn, rfl⟩, ha, hb⟩
  · rintro ⟨d, hd, f, ⟨row, hrow, howner, rfl⟩ | ⟨row, hrow, howner, rfl⟩, ha, hb⟩
    · exact .inl ⟨d, hd, row, hrow, (hedge d row.id).mpr howner, ha, hb⟩
    · exact .inr ⟨d, hd, row, hrow, (hassertion d row.id).mpr howner, ha, hb⟩

theorem OfFact.derived {d : RiDerivation} {f : RefKind × Str} (h : OfFact facts d f) :
    f.1 = .edge ∨ f.1 = .assertion := by
  rcases h with ⟨row, -, -, rfl⟩ | ⟨row, -, -, rfl⟩
  · exact .inl rfl
  · exact .inr rfl

/-- A path of the map to a derived fact is one from a derived fact. -/
theorem derives_of_path (h : Relation.TransGen (DepthFirst.Edge (graph facts)) a b)
    {f' : RefKind × Str} (hf' : f'.1 = .edge ∨ f'.1 = .assertion) (hb : b = tag f'.1 f'.2) :
    ∃ f, (f.1 = .edge ∨ f.1 = .assertion) ∧ a = tag f.1 f.2 ∧
      Relation.TransGen (Derives facts) f f' := by
  have hstep : ∀ {a b : Str} {f' : RefKind × Str}, DepthFirst.Edge (graph facts) a b →
      (f'.1 = .edge ∨ f'.1 = .assertion) → b = tag f'.1 f'.2 →
      ∃ f, (f.1 = .edge ∨ f.1 = .assertion) ∧ a = tag f.1 f.2 ∧ Derives facts f f' := by
    rintro a b f' hedge hf' rfl
    rcases outgoing_edge.mp hedge with ⟨d, hd, f, hof, ha, hb⟩
    rcases tag_inj hb with ⟨hkind, hidentity⟩
    exact ⟨f, hof.derived, ha, hf', d, hd, hof, Prod.ext hkind hidentity⟩
  induction h using Relation.TransGen.head_induction_on with
  | single hedge =>
    rcases hstep hedge hf' hb with ⟨f, hf, ha, hderives⟩
    exact ⟨f, hf, ha, Relation.TransGen.single hderives⟩
  | head hedge _ ih =>
    rcases ih with ⟨f'', hf'', hc, hpath⟩
    rcases hstep hedge hf'' hc with ⟨f, hf, ha, hderives⟩
    exact ⟨f, hf, ha, Relation.TransGen.head hderives hpath⟩

/-- The map has a cycle iff a fact is derived from itself. -/
theorem cycle_iff (facts : Facts) :
    (∃ a, Relation.TransGen (DepthFirst.Edge (graph facts)) a a) ↔
      ∃ f, Relation.TransGen (Derives facts) f f := by
  constructor
  · rintro ⟨a, hcycle⟩
    rcases Relation.TransGen.head'_iff.mp hcycle with ⟨b, hedge, -⟩
    rcases outgoing_edge.mp hedge with ⟨d, -, f, hof, ha, -⟩
    rcases derives_of_path hcycle hof.derived ha with ⟨f', -, ha', hpath⟩
    rw [ha] at ha'
    rw [← Prod.ext (tag_inj ha').1 (tag_inj ha').2] at hpath
    exact ⟨f, hpath⟩
  · rintro ⟨f, hcycle⟩
    have hlift : ∀ f f', Derives facts f f' →
        DepthFirst.Edge (graph facts) (tag f.1 f.2) (tag f'.1 f'.2) := by
      rintro f f' ⟨-, d, hd, hof, rfl⟩
      exact outgoing_edge.mpr ⟨d, hd, f, hof, rfl, rfl⟩
    exact ⟨tag f.1 f.2,
      Relation.TransGen.lift (fun f : RefKind × Str => tag f.1 f.2) hlift _ _ hcycle⟩

/-- The map, or the error of a reference that is not there. -/
theorem outgoing_spec (facts : Facts) :
    ((∀ d ∈ facts.derivations, Present facts d) ∧ outgoing facts = .ok (graph facts)) ∨
      ∃ d ∈ facts.derivations, ¬ Present facts d ∧
        outgoing facts = .error (.seal (notResolved d)) := by
  rw [outgoing, assign_eq]
  cases hedges : collect (entry facts .edge facts.edges)
    (Grouping.groups RiDerivation.edgeRef facts.derivations) with
  | error e =>
    rcases (edgeColumn facts).collect_error hedges with ⟨d, hd, habsent, rfl⟩
    exact .inr ⟨d, hd, habsent, rfl⟩
  | ok ofEdges =>
    simp only [ok_bind]
    rw [assign_eq]
    cases hassertions : collect (entry facts .assertion facts.assertions)
      (Grouping.groups RiDerivation.assertionRef facts.derivations) with
    | error e =>
      rcases (assertionColumn facts).collect_error hassertions with ⟨d, hd, habsent, rfl⟩
      exact .inr ⟨d, hd, habsent, rfl⟩
    | ok ofAssertions =>
      have hall : ∀ d ∈ facts.derivations, Present facts d := by
        intro d hd
        cases howner : d.owner with
        | edge id =>
          exact Column.collect_ok hedges hd (by rw [RiDerivation.edgeRef, howner])
        | assertion id =>
          exact Column.collect_ok hassertions hd (by rw [RiDerivation.assertionRef, howner])
      rw [(edgeColumn facts).collect_present hall] at hedges
      rw [(assertionColumn facts).collect_present hall] at hassertions
      have hfirst := @foldl_put (entries facts .edge facts.edges RiDerivation.edgeRef) []
        (edgeColumn facts).entries_nodup
      refine .inl ⟨hall, ?_⟩
      rw [← Except.ok.inj hedges, ← Except.ok.inj hassertions, ok_bind, hfirst,
        nil_append, foldl_put (graph_nodup facts)]
      rfl

/-- The check succeeds iff every reference is there and no fact is derived from itself, and
    fails with its own error otherwise, with a depth of the number of facts. -/
theorem derivation_graph_checked (facts : Facts) (more : Nat) :
    (validateDerivationGraph (facts.edges.length + facts.assertions.length + more) facts = .ok () ↔
      (∀ d ∈ facts.derivations, Present facts d) ∧
        ∀ f, ¬ Relation.TransGen (Derives facts) f f) ∧
    (validateDerivationGraph (facts.edges.length + facts.assertions.length + more) facts ≠ .ok () →
      ∃ message,
        validateDerivationGraph (facts.edges.length + facts.assertions.length + more) facts =
          .error (.seal message)) := by
  rw [validateDerivationGraph]
  rcases outgoing_spec facts with ⟨hall, hok⟩ | ⟨d, hd, habsent, herror⟩
  · have hdepth : (graph facts).length ≤ facts.edges.length + facts.assertions.length + more :=
      Nat.le_add_right_of_le (length_graph facts)
    rw [hok]
    rcases DepthFirst.search_spec hdepth with ⟨c, hsearch, hacyclic⟩ | ⟨hsearch, hcycle⟩
    · simp only [ok_bind, hsearch]
      refine ⟨iff_of_true trivial ⟨hall, fun f hf => ?_⟩, fun h => absurd rfl h⟩
      rcases (cycle_iff facts).mpr ⟨f, hf⟩ with ⟨a, ha⟩
      exact hacyclic a ha
    · simp only [ok_bind, hsearch]
      rcases (cycle_iff facts).mp hcycle with ⟨f, hf⟩
      exact ⟨iff_of_false (fun h => by cases h) (fun h => h.2 f hf), fun _ => ⟨_, rfl⟩⟩
  · rw [herror]
    exact ⟨iff_of_false (fun h => by cases h) (fun h => habsent (h.1 d hd)), fun _ => ⟨_, rfl⟩⟩

end Graph

end DerivationGraph

end Partha
