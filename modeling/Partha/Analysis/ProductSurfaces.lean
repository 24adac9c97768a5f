import Partha.Analysis.Architecture
import Partha.Analysis.Impact
import Partha.Canonical.Projection
import Partha.Library.Dict
import Partha.Library.Steps

/-!
# The Stack on Every Surface

What the product surfaces and the Architecture page say about the stack of a repository.

There are two derivations. One selects files and dependencies, the roles of files by the keys
of their assertions, and orders nodes by kind first. The other selects nodes for the graph as
well, the roles of files by path, and orders by key. Ties between languages go to the file that
comes first, and of several roles of a file the last assertion stays, so both depend on the
orders of the queries.

The contents of a snapshot come from the writes of its analysis, in any order: nodes with
normalized keys, edges, and classifications of what is there. A role is any of the names of the
rules, so a file may be classified again and again. The database compares text by a collation.
What `str.lower` and `str.title` do is a parameter.

The nodes for the graph are selected by one statement, which binds the ends of all the edges. A
database binds so many parameters and no more, so a large snapshot has a projection and no facts.

## Main definitions

* `building`: The writes of an analysis.
* `productProjection`: `product_projection`.
* `architectureFacts`, `stackSummary`, `architectureSummary`: `architecture_facts`,
  `stack_summary` and what `build_architecture` says of the stack.
* `boundParameters`: What the selection of the nodes binds.
* `SameStack`: Two derivations that agree.
* `Agree`: All that the Architecture page says agrees with a projection.

## Theorems

* `written_of_reachable`: What every write keeps.
* `filter_sortBy_filter`: Selecting before sorting is selecting after it.
* `surfaces_agree`: The surfaces describe the same stack iff the selection can be made.
-/

namespace Partha

namespace ProductSurfaces

open Canonical Facts SortKeys
open Architecture (firstMax)
open Impact (Collation binary sortKey)
open List

section Writing

/-- An assertion, with what it is ordered by. -/
structure AssertionRow extends RiAssertion where
  id : Nat
  assertionId : Str
  deriving DecidableEq, Repr

/-- The rows of one snapshot. -/
structure Contents where
  nodes : List RiNode
  edges : List RiEdge
  assertions : List AssertionRow

def fileKind : Str := "file".toList

def dependencyKind : Str := "dependency".toList

def symbolKind : Str := "symbol".toList

def classifiedAsPredicate : Str := "classified_as".toList

/-- The roles of the rules of `RoleClassifier`. -/
def roleNames : List Str :=
  ["documentation", "test", "entrypoint", "middleware", "controller", "route", "service",
    "repository", "model", "dto", "interface", "enum", "configuration", "utility",
    "auth_dependency"].map String.toList

/-- What an analysis writes. -/
inductive Write where
  | addNode (nodeKind stableKey : Str) (name language routePath : Option Str)
  | addEdge (edge : RiEdge)
  | classify (key role : Str)

variable [Unicode] (assertionId : Str → Str → Str → Str)

/-- `add_node`. -/
def addNode (t : Contents) (nodeKind stableKey : Str) (name language routePath : Option Str) :
    Option Contents :=
  match normalizeStableKey (nfc nodeKind) stableKey with
  | .error _ => none
  | .ok key =>
    let node : RiNode :=
      { id := t.nodes.length + 1
        stableKey := key
        nodeKind := nfc nodeKind
        name := name.map nfc
        language := language.map nfc
        routePath := routePath }
    match t.nodes.find? (fun n => n.stableKey = key) with
    | none => some { t with nodes := t.nodes ++ [node] }
    | some existing => if { existing with id := node.id } = node then some t else none

/-- `add_assertion`, of a classification. Its subject has to be a node. -/
def addAssertion (t : Contents) (subjectKind subjectKey classification : Str) : Option Contents :=
  match normalizeStableKey (nfc subjectKind) subjectKey with
  | .error _ => none
  | .ok key =>
    let row : AssertionRow :=
      { predicate := classifiedAsPredicate
        subjectKind := nfc subjectKind
        subjectKey := key
        classification := some classification
        id := t.assertions.length + 1
        assertionId := assertionId (nfc subjectKind) key classification }
    if t.assertions.any (fun a => a.assertionId = row.assertionId) then some t
    else if t.nodes.any (fun n => n.stableKey = key) then
      some { t with assertions := t.assertions ++ [row] }
    else none

/-- `_assert_classification`, of a node that `classify` comes by. -/
def classify (t : Contents) (key role : Str) : Option Contents :=
  match t.nodes.find? (fun n => n.stableKey = key) with
  | none => none
  | some node =>
    if roleNames.elem role && (decide (node.nodeKind = fileKind) &&
        filePrefix.isPrefixOf node.stableKey || decide (node.nodeKind = symbolKind)) then
      addAssertion assertionId t node.nodeKind node.stableKey role
    else none

def step (t : Contents) : Write → Option Contents
  | .addNode nodeKind stableKey name language routePath =>
    addNode t nodeKind stableKey name language routePath
  | .addEdge edge => some { t with edges := t.edges ++ [edge] }
  | .classify key role => classify assertionId t key role

/-- The writes of an analysis, in any order. -/
def building : StepSystem Contents Write :=
  { init := fun t => t = { nodes := [], edges := [], assertions := [] }
    step := step assertionId }

end Writing

section Product

variable [Interpreter] [Collation] (title : Str → Str)

/-- The nodes of files and of dependencies, ordered by kind, key and row. -/
def productNodes (t : Contents) : List RiNode :=
  sortBy (fun n => toLex (sortKey n.nodeKind, toLex (sortKey n.stableKey, n.id)))
    (t.nodes.filter (fun n => [fileKind, dependencyKind].elem n.nodeKind))

/-- The classifications of files, ordered by subject, assertion and row. -/
def productAssertions (t : Contents) : List AssertionRow :=
  sortBy (fun a => toLex (sortKey a.subjectKey, toLex (sortKey a.assertionId, a.id)))
    (t.assertions.filter (fun a => decide (a.subjectKind = fileKind) &&
      decide (a.predicate = classifiedAsPredicate)))

/-- A classification that is not empty. -/
def classificationOf (a : RiAssertion) : Option Str :=
  a.classification.filter (fun c => !c.isEmpty)

/-- `roles`, by the keys of files. -/
def productRoles (t : Contents) : List (Str × Str) :=
  Dict.ofPairs ((productAssertions t).filterMap
    (fun a => (classificationOf a.toRiAssertion).map (fun c => (a.subjectKey, c))))

structure SnapshotFileFact where
  path : Str
  language : Option Str
  role : Option Str
  deriving DecidableEq, Repr

structure SnapshotDependencyFact where
  stableKey : Str
  name : Str
  deriving DecidableEq, Repr

def productFiles (t : Contents) : List SnapshotFileFact :=
  ((productNodes t).filter (fun n => decide (n.nodeKind = fileKind) &&
    filePrefix.isPrefixOf n.stableKey)).map (fun n =>
      { path := removePrefix filePrefix n.stableKey
        language := n.language
        role := (productRoles t).lookup n.stableKey })

/-- Text that is there and not empty. -/
def given (s : Option Str) : Option Str :=
  s.filter (fun s => !s.isEmpty)

/-- `_project_dependency`. -/
def projectDependency (n : RiNode) : SnapshotDependencyFact :=
  { stableKey := n.stableKey
    name := (given n.name).getD n.stableKey }

def productDependencies (t : Contents) : List SnapshotDependencyFact :=
  ((productNodes t).filter (fun n => decide (n.nodeKind = dependencyKind))).map projectDependency

/-- `Counter(...).most_common(1)`, under the name of a table or in title case. -/
def dominant (names : List (Str × Str)) (languages : List Str) : Str :=
  match firstMax (fun l => languages.count l) languages with
  | none => "Unknown".toList
  | some l => (names.lookup l).getD (title l)

/-- The names of languages in `product_projection`. -/
def productLanguageNames : List (Str × Str) :=
  [("python", "Python"), ("typescript", "TypeScript")].map (fun p => (p.1.toList, p.2.toList))

/-- `framework_by_dependency`. -/
def frameworkByDependency : List (Str × Str) :=
  [("react", "React"), ("next", "Next.js"), ("vue", "Vue"), ("fastapi", "FastAPI"),
    ("django", "Django"), ("flask", "Flask")].map (fun p => (p.1.toList, p.2.toList))

def productLanguage (t : Contents) : Str :=
  dominant title productLanguageNames ((productFiles t).filterMap (fun f => given f.language))

def productFrameworks (t : Contents) : List Str :=
  sortBy codePoints ((frameworkByDependency.filter (fun p =>
    ((productDependencies t).map (fun d => lower d.name)).elem p.1)).map Prod.snd)

def productEntryPoints (t : Contents) : List Str :=
  sortBy codePoints (((productFiles t).filter
    (fun f => decide (f.role = some "entrypoint".toList))).map SnapshotFileFact.path)

end Product

section Architecture

variable [Interpreter] [Collation] (title : Str → Str)

/-- `ARCHITECTURE_NODE_KINDS`. -/
def architectureNodeKinds : List Str :=
  [fileKind, dependencyKind, "repository".toList]

/-- The ends of the edges with one of the predicates that are loaded. -/
def endpointKeys (predicates : List Str) (t : Contents) : List Str :=
  (t.edges.filter (fun e => predicates.elem e.predicate)).flatMap
    (fun e => [e.subjectKey, e.objectKey])

/-- The part of `ArchitectureSnapshotFacts` that the stack is read from. -/
structure ArchitectureFacts where
  snapshotId : Str
  nodes : List RiNode
  assertions : List AssertionRow

/-- The nodes of the kinds that are always needed and those of edges, ordered by key and row. -/
def architectureNodes (predicates : List Str) (t : Contents) : List RiNode :=
  sortBy (fun n => toLex (sortKey n.stableKey, n.id))
    (t.nodes.filter (fun n => architectureNodeKinds.elem n.nodeKind ||
      (endpointKeys predicates t).elem n.stableKey))

/-- The parameters of that selection: the snapshot, the kinds, and the set of the ends. -/
def boundParameters (predicates : List Str) (t : Contents) : Nat :=
  1 + architectureNodeKinds.length + (endpointKeys predicates t).dedup.length

/-- The classifications, ordered by subject, predicate, assertion and row. -/
def architectureAssertions (t : Contents) : List AssertionRow :=
  sortBy (fun a => toLex (sortKey a.subjectKey, toLex (sortKey a.predicate,
      toLex (sortKey a.assertionId, a.id))))
    (t.assertions.filter (fun a => decide (a.predicate = classifiedAsPredicate)))

/-- `_file_roles`. -/
def fileRoles (facts : ArchitectureFacts) : List (Str × Str) :=
  Dict.ofPairs (facts.assertions.filterMap (fun a =>
    if a.predicate ≠ classifiedAsPredicate ∨ a.subjectKind ≠ fileKind then none
    else (classificationOf a.toRiAssertion).map
      (fun c => (removePrefix filePrefix a.subjectKey, c))))

/-- `_FRAMEWORK_BY_DEPENDENCY_NAME`. -/
def frameworkByDependencyName : List (Str × Str) :=
  [("react", "React"), ("next", "Next.js"), ("vue", "Vue"), ("fastapi", "FastAPI"),
    ("django", "Django"), ("flask", "Flask")].map (fun p => (p.1.toList, p.2.toList))

/-- The names of languages in `_primary_language_from_facts`. -/
def architectureLanguageNames : List (Str × Str) :=
  [("python", "Python"), ("typescript", "TypeScript")].map (fun p => (p.1.toList, p.2.toList))

/-- `_frameworks_from_facts`. -/
def frameworksFromFacts (facts : ArchitectureFacts) : List Str :=
  let names := (facts.nodes.filter (fun n => decide (n.nodeKind = dependencyKind))).filterMap
    (fun n => (given n.name).map lower)
  sortedSet ((frameworkByDependencyName.filter (fun p => names.elem p.1)).map Prod.snd)

/-- `_primary_language_from_facts`. -/
def primaryLanguageFromFacts (facts : ArchitectureFacts) : Str :=
  dominant title architectureLanguageNames
    ((facts.nodes.filter (fun n => decide (n.nodeKind = fileKind))).filterMap
      (fun n => given n.language))

/-- `_entry_points_from_facts`. -/
def entryPointsFromFacts (facts : ArchitectureFacts) : List Str :=
  sortBy codePoints (((fileRoles facts).filter
    (fun p => decide (p.2 = "entrypoint".toList))).map Prod.fst)

structure StackSummary where
  language : Str
  framework : Str
  entryPoint : Option Str
  deriving DecidableEq, Repr

/-- The frameworks as they are shown. -/
def shown (frameworks : List Str) : Str :=
  if frameworks = [] then "Unknown".toList
  else List.intercalate ", ".toList frameworks

/-- `stack_summary`. -/
def stackSummary (facts : Option ArchitectureFacts) : StackSummary :=
  match facts with
  | none => { language := "Unknown".toList, framework := "Unknown".toList, entryPoint := none }
  | some facts =>
    { language := primaryLanguageFromFacts title facts
      framework := shown (frameworksFromFacts facts)
      entryPoint := (entryPointsFromFacts facts).head? }

end Architecture

section Snapshots

/-- What a completed snapshot has: `ck_ri_snapshots_seal_fields`. -/
structure Seal where
  canonicalGraphHash : Str
  sealedAt : Nat
  deriving DecidableEq, Repr

/-- A snapshot, which is completed iff it has a seal. -/
structure RiSnapshot where
  snapshotId : Str
  repositoryId : Str
  revisionKind : Str
  revisionValue : Str
  revisionRef : Option Str
  schemaVersion : Str
  sealed : Option Seal
  deriving DecidableEq, Repr

structure RepositoryRecord where
  id : Str
  ownerId : Str
  revisionKind : Str
  revisionValue : Str
  deriving DecidableEq, Repr

/-- The repositories, the snapshots, and the rows of each snapshot. A statement can bind so many
    parameters, which are enough for the statements that bind them in batches. -/
structure Database where
  records : List RepositoryRecord
  snapshots : List RiSnapshot
  contents : Str → Contents
  parameterLimit : Nat

inductive QueryError where
  | notFound (message : String) (repositoryId : Str) (snapshotId : Option Str)
  | unsupportedSchemaVersion (received : Str)
  | tooManyParameters (bound : Nat)
  deriving DecidableEq, Repr

variable [Interpreter] [Collation]

/-- `_latest_snapshot`: the newest completed one, and of those that of the least id. -/
def latestSnapshot (db : Database) (owner repositoryId : Str) :
    Except QueryError (Option RiSnapshot) :=
  let completed := db.snapshots.filter (fun s => decide (s.repositoryId = repositoryId) &&
    s.sealed.isSome && db.records.any (fun r => decide (r.id = s.repositoryId) &&
      decide (r.ownerId = owner)))
  match (sortBy (fun s => toLex (OrderDual.toDual ((s.sealed.map Seal.sealedAt).getD 0),
      sortKey s.snapshotId)) completed).head? with
  | none => .ok none
  | some s =>
    if s.schemaVersion = "ri.v1".toList then .ok (some s)
    else .error (.unsupportedSchemaVersion s.schemaVersion)

/-- The checks of a snapshot against the current revision of its repository. -/
def checkCurrent (db : Database) (repositoryId : Str) :
    Option RiSnapshot → Except QueryError (RiSnapshot × Seal)
  | none => .error (.notFound
      "No sealed Repository Intelligence snapshot is available for this repository."
      repositoryId none)
  | some s =>
    match db.records.find? (fun r => r.id = repositoryId) with
    | none => .error (.notFound
        "The sealed snapshot does not match the selected repository revision."
        repositoryId (some s.snapshotId))
    | some r =>
      if s.repositoryId ≠ r.id ∨ s.revisionKind ≠ r.revisionKind ∨
          s.revisionValue ≠ r.revisionValue then
        .error (.notFound
          "The sealed snapshot does not match the selected repository revision."
          repositoryId (some s.snapshotId))
      else match s.sealed with
        | none => .error (.notFound
            "The selected repository revision has no sealed snapshot." repositoryId none)
        | some sealed => .ok (s, sealed)

/-- `require_sealed_snapshot_for_current_revision`. -/
def requireSealedSnapshot (db : Database) (owner repositoryId : Str) :
    Except QueryError (RiSnapshot × Seal) := do
  let latest ← latestSnapshot db owner repositoryId
  checkCurrent db repositoryId latest

structure ProductSnapshotProjection where
  snapshotId : Str
  schemaVersion : Str
  repositoryId : Str
  revisionKind : Str
  revisionValue : Str
  revisionRef : Option Str
  canonicalGraphHash : Str
  primaryLanguage : Str
  frameworks : List Str
  entryPoints : List Str
  files : List SnapshotFileFact
  dependencies : List SnapshotDependencyFact
  deriving DecidableEq, Repr

variable (title : Str → Str) (predicates : List Str)

/-- The projection of the rows of a snapshot. -/
def project (s : RiSnapshot) (sealed : Seal) (t : Contents) : ProductSnapshotProjection :=
  { snapshotId := s.snapshotId
    schemaVersion := s.schemaVersion
    repositoryId := s.repositoryId
    revisionKind := s.revisionKind
    revisionValue := s.revisionValue
    revisionRef := s.revisionRef
    canonicalGraphHash := sealed.canonicalGraphHash
    primaryLanguage := productLanguage title t
    frameworks := productFrameworks t
    entryPoints := productEntryPoints t
    files := productFiles t
    dependencies := productDependencies t }

/-- `product_projection`. -/
def productProjection (db : Database) (owner repositoryId : Str) :
    Except QueryError ProductSnapshotProjection := do
  let current ← requireSealedSnapshot db owner repositoryId
  .ok (project title current.1 current.2 (db.contents current.1.snapshotId))

/-- The facts of the rows of a snapshot. -/
def factsOf (s : RiSnapshot) (t : Contents) : ArchitectureFacts :=
  { snapshotId := s.snapshotId
    nodes := architectureNodes predicates t
    assertions := architectureAssertions t }

/-- `architecture_facts`. -/
def architectureFacts (db : Database) (owner repositoryId : Str) :
    Except QueryError (Option ArchitectureFacts) := do
  let latest ← latestSnapshot db owner repositoryId
  match latest with
  | none => .ok none
  | some s =>
    let t := db.contents s.snapshotId
    if db.parameterLimit < boundParameters predicates t then
      .error (.tooManyParameters (boundParameters predicates t))
    else .ok (some (factsOf predicates s t))

/-- What `build_architecture` says of the stack, and of which snapshot. -/
structure ArchitectureSummary where
  relationshipSnapshotId : Option Str
  stack : StackSummary
  deriving DecidableEq, Repr

/-- `build_architecture`, as far as the stack goes. -/
def architectureSummary (db : Database) (owner repositoryId : Str) :
    Except QueryError ArchitectureSummary := do
  let _ ← requireSealedSnapshot db owner repositoryId
  let facts ← architectureFacts predicates db owner repositoryId
  .ok
    { relationshipSnapshotId := facts.map ArchitectureFacts.snapshotId
      stack := stackSummary title facts }

end Snapshots

section Orders

variable {α κ κ' : Type} [LinearOrder κ] [LinearOrder κ']

/-- Selecting before sorting is selecting after it. -/
theorem filter_sortBy_filter (key : α → κ) (p : α → Bool) (l : List α) :
    (sortBy key l).filter p = sortBy key (l.filter p) := by
  refine eq_of_filters ((pairwise_sortBy key l).filter p) (pairwise_sortBy key _) ?_
  intro k
  rw [filter_sortBy, filter_comm, filter_sortBy, filter_comm]

/-- Keys that compare alike sort alike. -/
theorem sortBy_eq_of_le {key : α → κ} {key' : α → κ'} {l : List α}
    (h : ∀ a ∈ l, ∀ b ∈ l, key a ≤ key b ↔ key' a ≤ key' b) : sortBy key l = sortBy key' l := by
  have hmap := map_insertionSort (fun a b : α => key a ≤ key b)
    (fun a b : α => key' a ≤ key' b) id l h
  rwa [map_id, map_id] at hmap

variable {α β : Type} {a a' : α} {b b' : β}

/-- A comparison of pairs with one first component. -/
theorem toLex_le_iff [LinearOrder α] [LinearOrder β] (h : a = a') :
    toLex (a, b) ≤ toLex (a', b') ↔ b ≤ b' := by
  rw [h, Prod.Lex.toLex_le_toLex]
  simp

theorem toLex_le_congr {γ : Type} [LinearOrder α] [LinearOrder β] [LinearOrder γ] {c c' : γ}
    (h : b ≤ b' ↔ c ≤ c') : toLex (a, b) ≤ toLex (a', b') ↔ toLex (a, c) ≤ toLex (a', c') := by
  rw [Prod.Lex.toLex_le_toLex, Prod.Lex.toLex_le_toLex, h]

theorem removePrefix_append (path : Str) : removePrefix filePrefix (filePrefix ++ path) = path := by
  rw [removePrefix, if_pos (List.isPrefixOf_iff_prefix.mpr (prefix_append _ _)),
    drop_left]

end Orders

section Keys

variable [Unicode]

variable {key k kind : Str}

/-- The key of a file, once it is normalized. -/
theorem normalizeKindKey_file (h : normalizeKindKey fileKind key = .ok k) :
    ∃ raw p, stripPrefix filePrefix key = some raw ∧ normalizeRepoPath raw = .ok p ∧
      k = filePrefix ++ p := by
  have hform : normalizeKindKey fileKind key =
      (match stripPrefix filePrefix key with
      | none => .error (.canonicalization "file stable keys must start with 'file:'")
      | some raw => normalizeRepoPath raw >>= fun path =>
        if path = [] then
          .error (.canonicalization "file stable keys require a repository-relative path")
        else .ok (filePrefix ++ path)) := by
    rw [normalizeKindKey, if_neg (by decide), if_neg (by decide), if_pos (by decide)]
    rfl
  rw [hform] at h
  cases hstrip : stripPrefix filePrefix key with
  | none =>
    rw [hstrip] at h
    cases h
  | some raw =>
    rw [hstrip] at h
    rcases Checked.bind_eq_ok.mp h with ⟨p, hp, hk⟩
    by_cases hnil : p = []
    · rw [if_pos hnil] at hk
      cases hk
    · rw [if_neg hnil] at hk
      exact ⟨raw, p, rfl, hp, (Except.ok.inj hk).symm⟩

theorem file_key (h : normalizeStableKey kind key = .ok k) (hkind : nfc kind = fileKind) :
    ∃ raw p, normalizeRepoPath raw = .ok p ∧ k = filePrefix ++ p := by
  have hk := (normalizeStableKey_iff.mp h).2.2
  rw [hkind] at hk
  rcases normalizeKindKey_file hk with ⟨raw, p, -, hp, hkey⟩
  exact ⟨raw, p, hp, hkey⟩

/-- The key of a file is normalized to itself, if to anything. -/
theorem file_key_again {raw p : Str} (hp : normalizeRepoPath raw = .ok p)
    (h : normalizeStableKey fileKind (filePrefix ++ p) = .ok k) : k = filePrefix ++ p := by
  have hkind : nfc fileKind = fileKind := nfc_ascii _ (by decide)
  have hkey : nfc (filePrefix ++ p) = filePrefix ++ p := by
    have happend := nfc_append "file".toList p ':' (by decide)
    rw [nfc_ascii "file".toList (by decide), normalizeRepoPath_nfc hp] at happend
    exact happend
  have hk := (normalizeStableKey_iff.mp h).2.2
  rw [hkind, hkey] at hk
  rcases normalizeKindKey_file hk with ⟨raw', p', hstrip, hp', hk⟩
  have hraw : raw' = p := by
    rw [stripPrefix, if_pos (prefix_append _ _), drop_left] at hstrip
    exact (Option.some.inj hstrip).symm
  rw [hraw, normalizeRepoPath_again hp] at hp'
  by_cases hdrive : driveLike p = true
  · rw [if_pos hdrive] at hp'
    cases hp'
  · rw [if_neg hdrive] at hp'
    rw [hk, ← Except.ok.inj hp']

theorem dependency_key (h : normalizeStableKey kind key = .ok k)
    (hkind : nfc kind = dependencyKind) :
    ':' ∈ k := by
  have hk := (normalizeStableKey_iff.mp h).2.2
  rw [hkind] at hk
  have hform : normalizeKindKey dependencyKind (nfc key) =
      if stripPrefix "dep:".toList (nfc key) = none ∨ (nfc key).count ':' < 2 then
        .error (.canonicalization "dependency stable keys require 'dep:<ecosystem>:<name>'")
      else .ok (nfc key) := by
    rw [normalizeKindKey, if_neg (by decide), if_neg (by decide), if_neg (by decide),
      if_neg (by decide), if_pos (by decide)]
  rw [hform] at hk
  by_cases hbad : stripPrefix "dep:".toList (nfc key) = none ∨ (nfc key).count ':' < 2
  · rw [if_pos hbad] at hk
    cases hk
  · rw [if_neg hbad] at hk
    cases hk
    refine count_pos_iff.mp ?_
    have hcount := (not_or.mp hbad).2
    omega

end Keys

section Invariant

variable [Unicode] {assertionId : Str → Str → Str → Str} {t t' : Contents}

/-- What every write keeps. -/
structure Written (t : Contents) : Prop where
  keys : (t.nodes.map RiNode.stableKey).Nodup
  kinds : ∀ n ∈ t.nodes, nfc n.nodeKind = n.nodeKind
  files : ∀ n ∈ t.nodes, n.nodeKind = fileKind →
    ∃ raw p, normalizeRepoPath raw = .ok p ∧ n.stableKey = filePrefix ++ p
  dependencies : ∀ n ∈ t.nodes, n.nodeKind = dependencyKind → ':' ∈ n.stableKey
  roles : ∀ a ∈ t.assertions, a.predicate = classifiedAsPredicate ∧
    ∃ role, role ≠ [] ∧ a.classification = some role
  subjects : ∀ a ∈ t.assertions, a.subjectKind = fileKind →
    ∃ n ∈ t.nodes, n.nodeKind = fileKind ∧ n.stableKey = a.subjectKey

theorem written_addNode {nodeKind stableKey : Str} {name language routePath : Option Str}
    (ht : Written t) (h : addNode t nodeKind stableKey name language routePath = some t') :
    Written t' := by
  unfold addNode at h
  cases hkey : normalizeStableKey (nfc nodeKind) stableKey with
  | error e =>
    rw [hkey] at h
    cases h
  | ok key =>
    rw [hkey] at h
    dsimp only at h
    cases hfind : t.nodes.find? (fun n => n.stableKey = key) with
    | some existing =>
      rw [hfind] at h
      dsimp only at h
      -- a node of the key is there: the call is a repetition or is refused
      split at h
      · cases h
        exact ht
      · cases h
    | none =>
      rw [hfind] at h
      cases h
      -- the new row has a key of its own, and kind and key in the form `addNode` gives them
      have hfresh : key ∉ t.nodes.map RiNode.stableKey := by
        intro hmem
        rcases mem_map.mp hmem with ⟨n, hn, hk⟩
        exact List.find?_eq_none.mp hfind n hn (decide_eq_true hk)
      refine ⟨?_, ?_, ?_, ?_, ht.roles, ?_⟩
      · rw [map_append]
        refine nodup_append.mpr ⟨ht.keys, nodup_singleton _, ?_⟩
        intro a ha b hb hab
        rw [hab, mem_singleton.mp hb] at ha
        exact hfresh ha
      · intro n hn
        rcases mem_append.mp hn with hn | hn
        · exact ht.kinds n hn
        · rw [mem_singleton.mp hn]
          exact nfc_nfc nodeKind
      · intro n hn hkind
        rcases mem_append.mp hn with hn | hn
        · exact ht.files n hn hkind
        · rw [mem_singleton.mp hn] at hkind ⊢
          exact file_key hkey (by rw [nfc_nfc]; exact hkind)
      · intro n hn hkind
        rcases mem_append.mp hn with hn | hn
        · exact ht.dependencies n hn hkind
        · rw [mem_singleton.mp hn] at hkind ⊢
          exact dependency_key hkey (by rw [nfc_nfc]; exact hkind)
      · intro a ha hkind
        rcases ht.subjects a ha hkind with ⟨n, hn, hfile⟩
        exact ⟨n, mem_append_left _ hn, hfile⟩

theorem written_classify {key role : Str} (ht : Written t)
    (h : classify assertionId t key role = some t') : Written t' := by
  unfold classify at h
  cases hfind : t.nodes.find? (fun n => n.stableKey = key) with
  | none =>
    rw [hfind] at h
    cases h
  | some node =>
    rw [hfind] at h
    dsimp only at h
    have hnode := mem_of_find?_eq_some hfind
    split at h
    · rename_i hcond
      -- a role is written only if there is one; the assertion names the key of its node
      have hrole : role ≠ [] := by
        intro hnil
        rw [hnil] at hcond
        exact absurd (Bool.and_eq_true_iff.mp hcond).1 (by decide)
      unfold addAssertion at h
      cases hkey : normalizeStableKey (nfc node.nodeKind) node.stableKey with
      | error e =>
        rw [hkey] at h
        cases h
      | ok k =>
        rw [hkey] at h
        dsimp only at h
        split at h
        · cases h
          exact ht
        · split at h
          · cases h
            refine ⟨ht.keys, ht.kinds, ht.files, ht.dependencies, ?_, ?_⟩
            · intro a ha
              rcases mem_append.mp ha with ha | ha
              · exact ht.roles a ha
              · rw [mem_singleton.mp ha]
                exact ⟨rfl, role, hrole, rfl⟩
            · intro a ha hkind
              rcases mem_append.mp ha with ha | ha
              · exact ht.subjects a ha hkind
              · rw [mem_singleton.mp ha] at hkind ⊢
                have hfile : node.nodeKind = fileKind := (ht.kinds node hnode).symm.trans hkind
                rcases ht.files node hnode hfile with ⟨raw, p, hp, hnodeKey⟩
                rw [ht.kinds node hnode, hfile, hnodeKey] at hkey
                exact ⟨node, hnode, hfile, hnodeKey.trans (file_key_again hp hkey).symm⟩
          · cases h
    · cases h

/-- What every write keeps holds of every snapshot that an analysis leaves. -/
theorem written_of_reachable (h : (building assertionId).Reachable t) : Written t := by
  refine StepSystem.reachableBy_invariant ?_ ?_ h
  · rintro t rfl
    refine ⟨nodup_nil, ?_, ?_, ?_, ?_, ?_⟩
    · exact fun n hn => absurd hn not_mem_nil
    · exact fun n hn => absurd hn not_mem_nil
    · exact fun n hn => absurd hn not_mem_nil
    · exact fun a ha => absurd ha not_mem_nil
    · exact fun a ha => absurd ha not_mem_nil
  · intro t w t' ht _ hstep
    cases w with
    | addNode nodeKind stableKey name language routePath => exact written_addNode ht hstep
    | addEdge edge =>
      cases hstep
      exact ⟨ht.keys, ht.kinds, ht.files, ht.dependencies, ht.roles, ht.subjects⟩
    | classify key role => exact written_classify ht hstep

theorem fileNode_starts (ht : Written t) {n : RiNode} (hn : n ∈ t.nodes)
    (hkind : n.nodeKind = fileKind) : filePrefix.isPrefixOf n.stableKey = true := by
  rcases ht.files n hn hkind with ⟨raw, p, -, hkey⟩
  rw [hkey]
  exact isPrefixOf_iff_prefix.mpr (prefix_append _ _)

end Invariant

section Agreement

variable [Unicode] [Collation] {t : Contents} {predicates : List Str}

variable (predicates) in
/-- Both queries list the files in one order. -/
theorem fileNodes_eq (ht : Written t) :
    (productNodes t).filter (fun n => decide (n.nodeKind = fileKind) &&
        filePrefix.isPrefixOf n.stableKey) =
      (architectureNodes predicates t).filter (fun n => decide (n.nodeKind = fileKind)) := by
  have hproduct : (t.nodes.filter (fun n => [fileKind, dependencyKind].elem n.nodeKind)).filter
      (fun n => decide (n.nodeKind = fileKind) && filePrefix.isPrefixOf n.stableKey) =
      t.nodes.filter (fun n => decide (n.nodeKind = fileKind)) := by
    rw [filter_filter]
    refine filter_congr ?_
    intro n hn
    by_cases hkind : n.nodeKind = fileKind
    · rw [fileNode_starts ht hn hkind, hkind]
      rfl
    · rw [decide_eq_false hkind]
      rfl
  have harchitecture : (t.nodes.filter (fun n => architectureNodeKinds.elem n.nodeKind ||
      (endpointKeys predicates t).elem n.stableKey)).filter
      (fun n => decide (n.nodeKind = fileKind)) =
      t.nodes.filter (fun n => decide (n.nodeKind = fileKind)) := by
    rw [filter_filter]
    refine filter_congr ?_
    intro n _
    by_cases hkind : n.nodeKind = fileKind
    · rw [hkind]
      rfl
    · rw [decide_eq_false hkind]
      rfl
  rw [productNodes, architectureNodes, filter_sortBy_filter, filter_sortBy_filter, hproduct,
    harchitecture]
  refine sortBy_eq_of_le ?_
  intro a ha b hb
  have hkinds : a.nodeKind = b.nodeKind :=
    (of_decide_eq_true (mem_filter.mp ha).2).trans
      (of_decide_eq_true (mem_filter.mp hb).2).symm
  exact toLex_le_iff (by rw [hkinds])

/-- Both queries count one list of languages. -/
theorem language_eq (ht : Written t) (title : Str → Str) (s : RiSnapshot) :
    primaryLanguageFromFacts title (factsOf predicates s t) = productLanguage title t := by
  have hlanguages : (productFiles t).filterMap (fun f => given f.language) =
      ((productNodes t).filter (fun n => decide (n.nodeKind = fileKind) &&
        filePrefix.isPrefixOf n.stableKey)).filterMap (fun n => given n.language) :=
    filterMap_map
  rw [productLanguage, hlanguages, fileNodes_eq predicates ht]
  rfl

variable {n : RiNode} {p : Str × Str} {path : Str}

omit [Unicode] in
theorem mem_productNodes :
    n ∈ productNodes t ↔
      n ∈ t.nodes ∧ (n.nodeKind = fileKind ∨ n.nodeKind = dependencyKind) := by
  rw [productNodes, mem_sortBy, mem_filter, elem_iff, mem_cons,
    mem_singleton]

omit [Unicode] in
theorem mem_architectureNodes_dependency (hkind : n.nodeKind = dependencyKind) :
    n ∈ architectureNodes predicates t ↔ n ∈ t.nodes := by
  rw [architectureNodes, mem_sortBy, mem_filter, hkind]
  exact and_iff_left rfl

variable [Interpreter] in
/-- A dependency without a name has no name of a framework on either surface. -/
theorem dependencyNames_iff (hlower : ∀ s, ':' ∈ s → ':' ∈ lower s) (ht : Written t)
    {name : Str} (hname : ':' ∉ name) (s : RiSnapshot) :
    ((productDependencies t).map (fun d => lower d.name)).elem name =
      (((factsOf predicates s t).nodes.filter
        (fun n => decide (n.nodeKind = dependencyKind))).filterMap
          (fun n => (given n.name).map lower)).elem name := by
  rw [Bool.eq_iff_iff, elem_iff, elem_iff]
  constructor
  · intro h
    rcases mem_map.mp h with ⟨d, hd, hdname⟩
    rcases mem_map.mp hd with ⟨n, hn, rfl⟩
    rcases mem_filter.mp hn with ⟨hn, hkind⟩
    have hkind := of_decide_eq_true hkind
    have hnode := (mem_productNodes.mp hn).1
    cases hgiven : given n.name with
    | none =>
      rw [projectDependency, hgiven] at hdname
      rw [← hdname] at hname
      exact absurd (hlower _ (ht.dependencies n hnode hkind)) hname
    | some text =>
      rw [projectDependency, hgiven] at hdname
      refine mem_filterMap.mpr ⟨n, mem_filter.mpr ⟨?_, decide_eq_true hkind⟩, ?_⟩
      · exact (mem_architectureNodes_dependency hkind).mpr hnode
      · rw [hgiven]
        exact congrArg some hdname
  · intro h
    rcases mem_filterMap.mp h with ⟨n, hn, hgiven⟩
    rcases mem_filter.mp hn with ⟨hn, hkind⟩
    have hkind := of_decide_eq_true hkind
    rcases Option.map_eq_some_iff.mp hgiven with ⟨text, htext, hlow⟩
    have hnode := (mem_architectureNodes_dependency hkind).mp hn
    refine mem_map.mpr ⟨projectDependency n, mem_map_of_mem ?_, ?_⟩
    · exact mem_filter.mpr
        ⟨mem_productNodes.mpr ⟨hnode, .inr hkind⟩, decide_eq_true hkind⟩
    · rw [projectDependency, htext]
      exact hlow

variable [Interpreter] in
/-- Both surfaces list the same frameworks. -/
theorem frameworks_eq (hlower : ∀ s, ':' ∈ s → ':' ∈ lower s) (ht : Written t)
    (s : RiSnapshot) :
    frameworksFromFacts (factsOf predicates s t) = productFrameworks t := by
  have hnames : ∀ p ∈ frameworkByDependency, ':' ∉ p.1 := by decide
  have hvalues : (frameworkByDependency.map Prod.snd).Nodup := by decide
  have hfilter : frameworkByDependencyName.filter (fun p =>
      (((factsOf predicates s t).nodes.filter
        (fun n => decide (n.nodeKind = dependencyKind))).filterMap
          (fun n => (given n.name).map lower)).elem p.1) =
      frameworkByDependency.filter (fun p =>
        ((productDependencies t).map (fun d => lower d.name)).elem p.1) :=
    filter_congr (fun p hp => (dependencyNames_iff hlower ht (hnames p hp) s).symm)
  rw [frameworksFromFacts, productFrameworks, sortedSet, hfilter, dedup_eq_self.mpr]
  exact hvalues.sublist (filter_sublist.map Prod.snd)

/-- Both queries list the classifications of files in one order. -/
theorem fileAssertions_eq (ht : Written t) :
    productAssertions t =
      (architectureAssertions t).filter (fun a => decide (a.subjectKind = fileKind)) := by
  rw [productAssertions, architectureAssertions, filter_sortBy_filter, filter_filter]
  refine sortBy_eq_of_le ?_
  intro a ha b hb
  have hpredicates : a.predicate = b.predicate :=
    (ht.roles a (mem_filter.mp ha).1).1.trans (ht.roles b (mem_filter.mp hb).1).1.symm
  have hinner : toLex (sortKey a.predicate, toLex (sortKey a.assertionId, a.id)) ≤
      toLex (sortKey b.predicate, toLex (sortKey b.assertionId, b.id)) ↔
      toLex (sortKey a.assertionId, a.id) ≤ toLex (sortKey b.assertionId, b.id) :=
    toLex_le_iff (congrArg sortKey hpredicates)
  exact toLex_le_congr hinner.symm

/-- The classifications of files, under the keys of the files. -/
def classified (t : Contents) : List (Str × Str) :=
  (productAssertions t).filterMap
    (fun a => (classificationOf a.toRiAssertion).map (fun c => (a.subjectKey, c)))

omit [Unicode] in
theorem mem_productAssertions {a : AssertionRow} (h : a ∈ productAssertions t) :
    a ∈ t.assertions ∧ a.subjectKind = fileKind := by
  rcases mem_filter.mp (mem_sortBy.mp h) with ⟨ha, hcond⟩
  exact ⟨ha, of_decide_eq_true (Bool.and_eq_true_iff.mp hcond).1⟩

/-- What is classified is a file that is there. -/
theorem classified_file (ht : Written t) (hp : p ∈ classified t) :
    ∃ n ∈ t.nodes, n.nodeKind = fileKind ∧ n.stableKey = p.1 := by
  rcases mem_filterMap.mp hp with ⟨a, ha, hpair⟩
  rcases Option.map_eq_some_iff.mp hpair with ⟨c, -, rfl⟩
  rcases mem_productAssertions ha with ⟨ha, hkind⟩
  exact ht.subjects a ha hkind

theorem classified_prefix (ht : Written t) (hp : p ∈ classified t) :
    ∃ path, p.1 = filePrefix ++ path := by
  rcases classified_file ht hp with ⟨n, hn, hkind, hkey⟩
  rcases ht.files n hn hkind with ⟨raw, path, -, hpath⟩
  exact ⟨path, hkey.symm.trans hpath⟩

/-- The classifications that the graph reads are the same, under the paths of the files. -/
theorem fileRoles_eq (ht : Written t) (s : RiSnapshot) :
    fileRoles (factsOf predicates s t) =
      Dict.ofPairs ((classified t).map (fun p => (removePrefix filePrefix p.1, p.2))) := by
  have hpairs : (architectureAssertions t).filterMap (fun a =>
      if a.predicate ≠ classifiedAsPredicate ∨ a.subjectKind ≠ fileKind then none
      else (classificationOf a.toRiAssertion).map
        (fun c => (removePrefix filePrefix a.subjectKey, c))) =
      (classified t).map (fun p => (removePrefix filePrefix p.1, p.2)) := by
    rw [classified, fileAssertions_eq ht, map_filterMap, filterMap_filter]
    refine filterMap_congr ?_
    intro a ha
    have hpredicate := (ht.roles a (mem_filter.mp (mem_sortBy.mp ha)).1).1
    by_cases hkind : a.subjectKind = fileKind
    · rw [if_neg (not_or.mpr ⟨not_not.mpr hpredicate, not_not.mpr hkind⟩), hkind, Option.map_map]
      rfl
    · rw [if_pos (.inr hkind), decide_eq_false hkind]
      rfl
  rw [fileRoles, ← hpairs]
  rfl

omit [Unicode] [Collation] in
/-- Looking up a path is looking up the key of its file. -/
theorem lookup_removePrefix {l : List (Str × Str)}
    (hl : ∀ p ∈ l, ∃ path, p.1 = filePrefix ++ path) (path : Str) :
    (l.map (fun p => (removePrefix filePrefix p.1, p.2))).lookup path =
      l.lookup (filePrefix ++ path) := by
  induction l with
  | nil => rfl
  | cons p l ih =>
    rcases p with ⟨k, r⟩
    rcases hl _ mem_cons_self with ⟨path', hk⟩
    have hk : k = filePrefix ++ path' := hk
    rw [map_cons, hk, lookup_cons, lookup_cons, removePrefix_append,
      ih (fun q hq => hl q (mem_cons_of_mem _ hq))]
    by_cases h : path = path'
    · rw [h]
      simp only [beq_self_eq_true]
    · have hne : filePrefix ++ path ≠ filePrefix ++ path' := fun he =>
        h (append_cancel_left he)
      rw [beq_eq_false_iff_ne.mpr h, beq_eq_false_iff_ne.mpr hne]

/-- A path is an entry point of the graph iff the last classification of its file says so. -/
theorem mem_entryPointsFromFacts (ht : Written t) (s : RiSnapshot) :
    path ∈ entryPointsFromFacts (factsOf predicates s t) ↔
      (classified t).reverse.lookup (filePrefix ++ path) = some "entrypoint".toList := by
  have hreverse : ∀ p ∈ (classified t).reverse, ∃ path, p.1 = filePrefix ++ path :=
    fun p hp => classified_prefix ht (mem_reverse.mp hp)
  have hlookup : (path, "entrypoint".toList) ∈ fileRoles (factsOf predicates s t) ↔
      (classified t).reverse.lookup (filePrefix ++ path) = some "entrypoint".toList := by
    rw [fileRoles_eq ht, Dict.mem_ofPairs, ← map_reverse, lookup_removePrefix hreverse]
  rw [entryPointsFromFacts, mem_sortBy, mem_map, ← hlookup]
  constructor
  · rintro ⟨p, hp, rfl⟩
    rcases mem_filter.mp hp with ⟨hp, hrole⟩
    rw [← of_decide_eq_true hrole]
    exact hp
  · intro h
    exact ⟨_, mem_filter.mpr ⟨h, decide_eq_true rfl⟩, rfl⟩

/-- A path is an entry point of the projection iff the last classification of its file says
    so. -/
theorem mem_productEntryPoints (ht : Written t) :
    path ∈ productEntryPoints t ↔
      (classified t).reverse.lookup (filePrefix ++ path) = some "entrypoint".toList := by
  have hroles : ∀ key, (productRoles t).lookup key = (classified t).reverse.lookup key :=
    fun key => Dict.lookup_ofPairs (classified t) key
  rw [productEntryPoints, mem_sortBy, mem_map]
  constructor
  · rintro ⟨f, hf, rfl⟩
    rcases mem_filter.mp hf with ⟨hf, hrole⟩
    rcases mem_map.mp hf with ⟨n, hn, rfl⟩
    rcases mem_filter.mp hn with ⟨hn, hcond⟩
    have hkind := of_decide_eq_true (Bool.and_eq_true_iff.mp hcond).1
    rcases ht.files n (mem_productNodes.mp hn).1 hkind with ⟨raw, p, -, hkey⟩
    have hrole := of_decide_eq_true hrole
    dsimp only at hrole ⊢
    rw [hroles, hkey] at hrole
    rw [hkey, removePrefix_append]
    exact hrole
  · intro h
    have hmem : (filePrefix ++ path, "entrypoint".toList) ∈ classified t :=
      mem_reverse.mp (Dict.mem_of_lookup h)
    rcases classified_file ht hmem with ⟨n, hn, hkind, hkey⟩
    have hkey : n.stableKey = filePrefix ++ path := hkey
    refine ⟨_, mem_filter.mpr ⟨mem_map_of_mem (mem_filter.mpr
      ⟨mem_productNodes.mpr ⟨hn, .inl hkind⟩, ?_⟩), ?_⟩, ?_⟩
    · exact Bool.and_eq_true_iff.mpr ⟨decide_eq_true hkind, fileNode_starts ht hn hkind⟩
    · refine decide_eq_true ?_
      dsimp only
      rw [hroles, hkey]
      exact h
    · dsimp only
      rw [hkey, removePrefix_append]

theorem nodup_productEntryPoints (ht : Written t) : (productEntryPoints t).Nodup := by
  have hnodes : ((productNodes t).map RiNode.stableKey).Nodup := by
    refine ((perm_sortBy _ _).map _).nodup_iff.mpr ?_
    exact ht.keys.sublist (filter_sublist.map _)
  have hfiles : ((productFiles t).map SnapshotFileFact.path).Nodup := by
    rw [productFiles, map_map]
    refine List.Nodup.of_map (filePrefix ++ ·) ?_
    rw [map_map]
    have hsame : ((productNodes t).filter (fun n => decide (n.nodeKind = fileKind) &&
        filePrefix.isPrefixOf n.stableKey)).map ((filePrefix ++ ·) ∘ SnapshotFileFact.path ∘
          (fun n : RiNode => ({ path := removePrefix filePrefix n.stableKey
                                language := n.language
                                role := (productRoles t).lookup n.stableKey } :
            SnapshotFileFact))) =
        ((productNodes t).filter (fun n => decide (n.nodeKind = fileKind) &&
          filePrefix.isPrefixOf n.stableKey)).map RiNode.stableKey := by
      refine map_congr_left ?_
      intro n hn
      rcases mem_filter.mp hn with ⟨hn, hcond⟩
      have hkind := of_decide_eq_true (Bool.and_eq_true_iff.mp hcond).1
      rcases ht.files n (mem_productNodes.mp hn).1 hkind with ⟨raw, p, -, hkey⟩
      simp [hkey, removePrefix_append]
    rw [hsame]
    exact hnodes.sublist (filter_sublist.map _)
  refine (perm_sortBy _ _).nodup_iff.mpr ?_
  exact hfiles.sublist (filter_sublist.map _)

omit [Unicode] [Collation] in
theorem nodup_entryPointsFromFacts (facts : ArchitectureFacts) :
    (entryPointsFromFacts facts).Nodup := by
  refine (perm_sortBy _ _).nodup_iff.mpr ?_
  exact (Dict.nodup_ofPairs _).sublist (filter_sublist.map _)

/-- Both surfaces list the same entry points. -/
theorem entryPoints_eq (ht : Written t) (s : RiSnapshot) :
    entryPointsFromFacts (factsOf predicates s t) = productEntryPoints t := by
  have hperm : (entryPointsFromFacts (factsOf predicates s t)).Perm (productEntryPoints t) := by
    rw [perm_ext_iff_of_nodup (nodup_entryPointsFromFacts _) (nodup_productEntryPoints ht)]
    intro path
    rw [mem_entryPointsFromFacts ht, mem_productEntryPoints ht]
  refine hperm.eq_of_pairwise ?_ (pairwise_sortBy codePoints _) (pairwise_sortBy codePoints _)
  exact fun a b _ _ hab hba => codePoints_injective (le_antisymm hab hba)

end Agreement

section Main

variable [Unicode] [Interpreter] [Collation] {assertionId : Str → Str → Str → Str}
  {title : Str → Str} {predicates : List Str} {db : Database} {owner repositoryId : Str}

/-- Two derivations that agree: they describe one snapshot, with the same primary language, the
    same frameworks and the same entry points. -/
structure SameStack (title : Str → Str) (p : ProductSnapshotProjection)
    (facts : ArchitectureFacts) : Prop where
  snapshot : facts.snapshotId = p.snapshotId
  language : primaryLanguageFromFacts title facts = p.primaryLanguage
  frameworks : frameworksFromFacts facts = p.frameworks
  entryPoints : entryPointsFromFacts facts = p.entryPoints

/-- The two derivations agree on the rows of every analysis. -/
theorem project_same (hlower : ∀ s, ':' ∈ s → ':' ∈ lower s) {t : Contents} (ht : Written t)
    (s : RiSnapshot) (sealed : Seal) :
    SameStack title (project title s sealed t) (factsOf predicates s t) :=
  { snapshot := rfl
    language := language_eq ht title s
    frameworks := frameworks_eq hlower ht s
    entryPoints := entryPoints_eq ht s }

variable {s : RiSnapshot}

omit [Unicode] [Interpreter] in
theorem latestSnapshot_mem (h : latestSnapshot db owner repositoryId = .ok (some s)) :
    s ∈ db.snapshots ∧ s.sealed.isSome = true := by
  unfold latestSnapshot at h
  dsimp only at h
  split at h
  · cases h
  · rename_i s' hhead
    have hmem := mem_sortBy.mp (mem_of_mem_head? (Option.mem_def.mpr hhead))
    rcases mem_filter.mp hmem with ⟨hs, hcond⟩
    by_cases hversion : s'.schemaVersion = "ri.v1".toList
    · rw [if_pos hversion] at h
      rw [← Option.some.inj (Except.ok.inj h)]
      exact ⟨hs, (Bool.and_eq_true_iff.mp (Bool.and_eq_true_iff.mp hcond).1).2⟩
    · rw [if_neg hversion] at h
      cases h

omit [Unicode] [Interpreter] in
/-- What is required is the latest snapshot, with its seal. -/
theorem requireSealedSnapshot_ok {current : RiSnapshot × Seal}
    (h : requireSealedSnapshot db owner repositoryId = .ok current) :
    latestSnapshot db owner repositoryId = .ok (some current.1) ∧
      current.1.sealed = some current.2 := by
  rcases Checked.bind_eq_ok.mp h with ⟨latest, hlatest, hcheck⟩
  cases latest with
  | none => cases hcheck
  | some s =>
    unfold checkCurrent at hcheck
    dsimp only at hcheck
    split at hcheck
    · cases hcheck
    · split at hcheck
      · cases hcheck
      · split at hcheck
        · cases hcheck
        · rename_i sealed hsealed
          cases hcheck
          exact ⟨hlatest, hsealed⟩

omit [Unicode] [Interpreter] in
theorem architectureFacts_eq (h : latestSnapshot db owner repositoryId = .ok (some s)) :
    architectureFacts predicates db owner repositoryId =
      if db.parameterLimit < boundParameters predicates (db.contents s.snapshotId) then
        .error (.tooManyParameters (boundParameters predicates (db.contents s.snapshotId)))
      else .ok (some (factsOf predicates s (db.contents s.snapshotId))) := by
  rw [architectureFacts, h]
  rfl

/-- All that the Architecture page says of the stack agrees with a projection. -/
def Agree (title : Str → Str) (predicates : List Str) (db : Database) (owner repositoryId : Str)
    (p : ProductSnapshotProjection) : Prop :=
  ∃ facts, architectureFacts predicates db owner repositoryId = .ok (some facts) ∧
    SameStack title p facts ∧
    stackSummary title (some facts) =
      { language := p.primaryLanguage
        framework := shown p.frameworks
        entryPoint := p.entryPoints.head? } ∧
    architectureSummary title predicates db owner repositoryId =
      .ok { relationshipSnapshotId := some p.snapshotId
            stack := stackSummary title (some facts) }

/-- The surfaces describe the same stack, of the same snapshot, with the same primary language,
    the same frameworks and the same entry points, iff the parameters of the selection of nodes
    are within the limit. If they are not, the projection is there and the page is not. -/
theorem surfaces_agree (hlower : ∀ s, ':' ∈ s → ':' ∈ lower s)
    (hsealed : ∀ s ∈ db.snapshots, s.sealed.isSome = true →
      (building assertionId).Reachable (db.contents s.snapshotId)) :
    (∀ p, productProjection title db owner repositoryId = .ok p →
      (Agree title predicates db owner repositoryId p ↔
        boundParameters predicates (db.contents p.snapshotId) ≤ db.parameterLimit)) ∧
      ∀ a, architectureSummary title predicates db owner repositoryId = .ok a →
        ∃ p, productProjection title db owner repositoryId = .ok p := by
  constructor
  · intro p hp
    rcases Checked.bind_eq_ok.mp hp with ⟨⟨s, sealed⟩, hcurrent, hproject⟩
    rcases requireSealedSnapshot_ok hcurrent with ⟨hlatest, -⟩
    rcases latestSnapshot_mem hlatest with ⟨hmem, hsome⟩
    have hwritten : Written (db.contents s.snapshotId) :=
      written_of_reachable (hsealed s hmem hsome)
    have hsame : SameStack title p (factsOf predicates s (db.contents s.snapshotId)) := by
      cases hproject
      exact project_same hlower hwritten s sealed
    have hid : s.snapshotId = p.snapshotId := hsame.snapshot
    have hfacts : architectureFacts predicates _ _ _ = _ := architectureFacts_eq hlatest
    rw [hid] at hfacts hsame
    constructor
    · rintro ⟨facts, hok, -⟩
      by_contra hlimit
      rw [hfacts, if_pos (Nat.lt_of_not_le hlimit)] at hok
      cases hok
    · intro hlimit
      rw [if_neg (Nat.not_lt.mpr hlimit)] at hfacts
      refine ⟨_, hfacts, hsame, ?_, ?_⟩
      · rw [← hsame.language, ← hsame.frameworks, ← hsame.entryPoints]
        rfl
      · refine Checked.bind_eq_ok.mpr ⟨_, hcurrent, Checked.bind_eq_ok.mpr ⟨_, hfacts, ?_⟩⟩
        rw [Option.map_some, hsame.snapshot]
  · intro a ha
    rcases Checked.bind_eq_ok.mp ha with ⟨current, hcurrent, -⟩
    exact ⟨project title current.1 current.2 (db.contents current.1.snapshotId),
      Checked.bind_eq_ok.mpr ⟨_, hcurrent, rfl⟩⟩

end Main

section Samples

local instance surfacesText : Unicode := asciiText
local instance surfacesInterpreter : Interpreter := cpython
local instance surfacesCollation : Collation := binary

/-- The identifiers of assertions as the texts that are hashed. -/
def plainAssertionId (kind key role : Str) : Str :=
  kind ++ key ++ role

/-- Two languages with one file each, and a file that is classified twice. -/
def tiedWrites : List Write :=
  [.addNode fileKind "file:b.ts".toList none (some "typescript".toList) none,
    .addNode fileKind "file:a.py".toList none (some "python".toList) none,
    .addNode dependencyKind "dep:npm:React".toList (some "React".toList) none none,
    .classify "file:b.ts".toList "test".toList,
    .classify "file:b.ts".toList "entrypoint".toList,
    .classify "file:a.py".toList "entrypoint".toList]

def noRows : Contents :=
  { nodes := [], edges := [], assertions := [] }

/-- The rows that the writes leave. -/
def tiedRows : Contents :=
  ((building plainAssertionId).exec noRows tiedWrites).getD noRows

def tiedSeal : Seal :=
  { canonicalGraphHash := "0f".toList
    sealedAt := 7 }

def tiedSnapshot : RiSnapshot :=
  { snapshotId := "s".toList
    repositoryId := "r".toList
    revisionKind := "git_commit".toList
    revisionValue := "c0".toList
    revisionRef := none
    schemaVersion := "ri.v1".toList
    sealed := some tiedSeal }

/-- A database with one snapshot, which binds what SQLite does. -/
def databaseOf (t : Contents) : Database :=
  { records :=
      [{ id := "r".toList
         ownerId := "o".toList
         revisionKind := "git_commit".toList
         revisionValue := "c0".toList }]
    snapshots := [tiedSnapshot]
    contents := fun _ => t
    parameterLimit := 32766 }

theorem tiedRows_reachable : (building plainAssertionId).Reachable tiedRows := by
  have hexec : (building plainAssertionId).exec noRows tiedWrites = some tiedRows := rfl
  exact StepSystem.reachable_of_exec rfl hexec

theorem surfaces_agree_sample :
    ∃ p facts, productProjection id (databaseOf tiedRows) "o".toList "r".toList = .ok p ∧
      p.primaryLanguage = "Python".toList ∧ p.frameworks = ["React".toList] ∧
      p.entryPoints = ["a.py".toList] ∧
      architectureFacts [] (databaseOf tiedRows) "o".toList "r".toList = .ok (some facts) ∧
      SameStack id p facts := by
  have hproject : productProjection id (databaseOf tiedRows) "o".toList "r".toList =
      .ok (project id tiedSnapshot tiedSeal tiedRows) := rfl
  have hlower : ∀ s : Str, ':' ∈ s → ':' ∈ lower s :=
    fun s h => mem_map.mpr ⟨':', h, by decide⟩
  have hagree := @surfaces_agree _ _ _ plainAssertionId id [] (databaseOf tiedRows) "o".toList
    "r".toList hlower (fun _ _ _ => tiedRows_reachable)
  rcases (hagree.1 _ hproject).mpr (by decide) with ⟨facts, hfacts, hsame, -, -⟩
  exact ⟨_, facts, hproject, rfl, rfl, rfl, hfacts, hsame⟩

def importsPredicate : Str := "imports".toList

def manyKey (n : Nat) : Str :=
  filePrefix ++ List.replicate (n + 1) 'a'

def manyNode (n : Nat) : RiNode :=
  { id := n + 1
    stableKey := manyKey n
    nodeKind := fileKind
    name := none
    language := none
    routePath := none }

/-- The import of the first file by another one. -/
def manyEdge (n : Nat) : RiEdge :=
  { id := n + 1
    edgeId := manyKey n
    subjectKind := fileKind
    subjectKey := manyKey n
    predicate := importsPredicate
    objectKind := fileKind
    objectKey := manyKey 0 }

/-- Some files that all import the first one. -/
def manyRows (n : Nat) : Contents :=
  { nodes := (List.range n).map manyNode
    edges := (List.range n).map manyEdge
    assertions := [] }

variable {n : Nat}

theorem manyKey_injective {m : Nat} (h : manyKey m = manyKey n) : m = n := by
  have hlength := congrArg List.length (append_cancel_left h)
  rw [length_replicate, length_replicate] at hlength
  omega

theorem manyKey_normal (n : Nat) :
    normalizeStableKey fileKind (manyKey n) = .ok (manyKey n) := by
  have hpath : RepoPath (List.replicate (n + 1) 'a') [List.replicate (n + 1) 'a'] := by
    have hno : ∀ c : Char, c ≠ 'a' → c ∉ List.replicate (n + 1) 'a' :=
      fun c hc h => hc (eq_of_mem_replicate h)
    have hplain : ∀ t : Str, t.head? ≠ some 'a' → List.replicate (n + 1) 'a' ≠ t := by
      intro t ht h
      exact ht (h ▸ rfl)
    refine ⟨rfl, fun s hs => ?_, fun s hs => ?_⟩
    · rw [mem_singleton.mp hs]
      exact ⟨hplain _ (by decide), hplain _ (by decide), hplain _ (by decide)⟩
    · rw [mem_singleton.mp hs]
      exact ⟨rfl, hno '/' (by decide), hno '\\' (by decide)⟩
  have hdrive : driveLike (List.replicate (n + 1) 'a') = false := by
    cases n with
    | zero => rfl
    | succ n => rfl
  have hnormal := hpath.normalize
  rw [hdrive] at hnormal
  refine (normalizeStableKey_file hnormal).trans ?_
  have hcontrol : ((List.replicate (n + 1) 'a').any fun c => c.toNat < 0x20) = false := by
    rw [any_eq_false]
    intro c hc
    rw [eq_of_mem_replicate hc]
    decide
  rw [hcontrol]
  rfl

/-- The rows are written file by file, each with its edge. -/
theorem manyRows_reachable (n : Nat) : (building plainAssertionId).Reachable (manyRows n) := by
  induction n with
  | zero => exact ⟨manyRows 0, rfl, Relation.ReflTransGen.refl⟩
  | succ n ih =>
    have hnew : (manyRows n).nodes.find? (fun m => m.stableKey = manyKey n) = none := by
      rw [List.find?_eq_none]
      intro m hm hkey
      rcases mem_map.mp hm with ⟨i, hi, rfl⟩
      have hsame := manyKey_injective (of_decide_eq_true hkey)
      rw [hsame] at hi
      exact absurd (mem_range.mp hi) (Nat.lt_irrefl n)
    have hlength : (manyRows n).nodes.length = n := by
      rw [manyRows, length_map, length_range]
    have hnode : addNode (manyRows n) fileKind (manyKey n) none none none =
        some { manyRows n with nodes := (manyRows (n + 1)).nodes } := by
      have hkey : normalizeStableKey (nfc fileKind) (manyKey n) = .ok (manyKey n) :=
        manyKey_normal n
      simp only [addNode, hkey, hnew, hlength]
      simp only [manyRows, range_succ, map_append]
      rfl
    have hstep : (building plainAssertionId).step (manyRows n)
        (.addNode fileKind (manyKey n) none none none) = _ := hnode
    have hexec : (building plainAssertionId).exec (manyRows n)
        [.addNode fileKind (manyKey n) none none none, .addEdge (manyEdge n)] =
          some (manyRows (n + 1)) := by
      simp only [StepSystem.exec, hstep]
      simp only [building, step, manyRows, range_succ, map_append]
      rfl
    exact StepSystem.reachableBy_path ih (StepSystem.path_of_exec hexec)

/-- Every file is the end of an edge. -/
theorem manyRows_parameters (n : Nat) :
    n + 4 ≤ boundParameters [importsPredicate] (manyRows n) := by
  have hnodup : ((List.range n).map manyKey).Nodup :=
    nodup_range.map_on (fun _ _ _ _ h => manyKey_injective h)
  have hsubset : (List.range n).map manyKey ⊆
      (endpointKeys [importsPredicate] (manyRows n)).dedup := by
    intro key hkey
    rcases mem_map.mp hkey with ⟨i, hi, rfl⟩
    refine mem_dedup.mpr (mem_flatMap.mpr ⟨manyEdge i, ?_, mem_cons_self⟩)
    exact mem_filter.mpr ⟨mem_map_of_mem hi, rfl⟩
  have hle := (subperm_of_subset hnodup hsubset).length_le
  rw [length_map, length_range] at hle
  have hkinds : architectureNodeKinds.length = 3 := rfl
  rw [boundParameters, hkinds]
  omega

/-- A snapshot with too many ends of edges has a projection, and no facts for the page. -/
theorem manyRows_disagree (h : 32766 < n + 4) :
    (∀ s ∈ (databaseOf (manyRows n)).snapshots, s.sealed.isSome = true →
      (building plainAssertionId).Reachable ((databaseOf (manyRows n)).contents s.snapshotId)) ∧
      ∃ p, productProjection id (databaseOf (manyRows n)) "o".toList "r".toList = .ok p ∧
        ¬ Agree id [importsPredicate] (databaseOf (manyRows n)) "o".toList "r".toList p := by
  refine ⟨fun _ _ _ => manyRows_reachable n, _, rfl, ?_⟩
  rintro ⟨facts, hfacts, -⟩
  have hlatest : latestSnapshot (databaseOf (manyRows n)) "o".toList "r".toList =
      .ok (some tiedSnapshot) := rfl
  have hlimit : (databaseOf (manyRows n)).parameterLimit <
      boundParameters [importsPredicate] (manyRows n) :=
    Nat.lt_of_lt_of_le h (manyRows_parameters n)
  rw [architectureFacts_eq hlatest] at hfacts
  exact absurd (hfacts.symm.trans (if_pos hlimit)) (by rintro ⟨⟩)

/-- Files enough are in a large repository. -/
theorem surfaces_disagree :
    (∀ s ∈ (databaseOf (manyRows 32763)).snapshots, s.sealed.isSome = true →
      (building plainAssertionId).Reachable
        ((databaseOf (manyRows 32763)).contents s.snapshotId)) ∧
      ∃ p, productProjection id (databaseOf (manyRows 32763)) "o".toList "r".toList = .ok p ∧
        ¬ Agree id [importsPredicate] (databaseOf (manyRows 32763)) "o".toList "r".toList p :=
  manyRows_disagree (by decide)

end Samples

end ProductSurfaces

end Partha
