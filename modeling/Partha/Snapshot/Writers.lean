import Partha.Canonical.GraphHash
import Partha.Library.AppendOnly
import Partha.Library.Steps
import Partha.Snapshot.DerivationGraph

/-!
# The Writers of a Snapshot

The facts of a snapshot are written one call at a time while it is being built. Each call normalizes
what it is given, computes the identity of the fact, and looks for a row with this identity. What is
found is kept, and is given the evidence and the derivations that the call adds. Otherwise a row is
inserted. Rows are never changed and never deleted, so the tables only grow, and a call that has
returned once changes nothing when it is made again.

A row is identified by its place in its table, which it has when it is inserted. What the tables
accept is a parameter: the database may refuse any insertion, as for a fact about a node that is not
there. A mapping is the list of its items by the order of its keys, for which `sortKeys` stands.

## Main definitions

* `normalizeDeclaredArrays`: `normalize_declared_arrays`.
* `Tables`: The rows of a snapshot.
* `addNode`, `addObservation`, `addEdge`, `addAssertion`, `addDiagnostic`: The writers.
* `building`: Writing a snapshot, one call at a time.
* `Settled`: There is nothing left to do for a call.

## Theorems

* `prepare_normal`: What is stored of a mapping is normal.
* `perform_extends`, `perform_settles`: What a call does.
* `rewriting_changes_nothing`: A call that has returned changes nothing when it is made again.
-/

namespace Partha

namespace SnapshotStore

open Canonical Checked AppendOnly
open DerivationGraph (RefKind RiDerivation)
open List

/-- What is raised. A message of `SnapshotSealError` that names something has `…` in its place. -/
inductive StoreError where
  | canonical (e : CanonicalError)
  | notBuilding (snapshotId state : Str)
  | arrayKeysOverlap (keys : List Str)
  | refused (message : String)
  | refusedOf (message : String) (name : Str)
  | conflictingLines (path : Str) (stored given : Int)
  | invalidSpan (startLine endLine : Int) (path : Str) (logicalLineCount : Int)
  | graph (failure : DerivationGraph.Failure)
  | integrity
  deriving DecidableEq

/-- An error of the canonical functions, raised through. -/
def raising {α : Type} (x : Except CanonicalError α) : Except StoreError α :=
  match x with
  | .ok a => .ok a
  | .error e => .error (.canonical e)

@[simp]
theorem raising_eq_ok {α : Type} {x : Except CanonicalError α} {a : α} :
    raising x = .ok a ↔ x = .ok a := by
  cases x with
  | error e => exact iff_of_false (fun h => by cases h) (fun h => by cases h)
  | ok b => rw [raising, Except.ok.injEq, Except.ok.injEq]

section Content

variable [Unicode]

/-- The elements of an array that is a set: one for each encoding, by their encodings. -/
def asSet (elements : List Value) : List Value :=
  Ordering.ordered (fun _ => ()) encoded elements

/-- A key that is declared, which the elements of an array do not have. -/
def declared (keys : List Str) : Option Str → Bool
  | none => false
  | some key => keys.elem key

mutual

/-- `prepare`. -/
def prepare (setArrayKeys orderedArrayKeys : List Str) (context : String) (key : Option Str) :
    Value → Except CanonicalError Value
  | .obj fields => do
      let prepared ← prepareFields setArrayKeys orderedArrayKeys context [] fields
      .ok (.obj (sortKeys prepared))
  | .arr items =>
    if declared setArrayKeys key || declared orderedArrayKeys key then do
      let elements ← prepareItems setArrayKeys orderedArrayKeys context items
      -- The elements are normal here, so that their bytes are those of their texts.
      .ok (.arr (if declared setArrayKeys key then asSet elements else elements))
    else .error (.arrayUndeclared context key)
  | v => normalize v

def prepareItems (setArrayKeys orderedArrayKeys : List Str) (context : String) :
    List Value → Except CanonicalError (List Value)
  | [] => .ok []
  | v :: items => do
      let w ← prepare setArrayKeys orderedArrayKeys context none v
      let ws ← prepareItems setArrayKeys orderedArrayKeys context items
      .ok (w :: ws)

/-- The properties of a mapping, of which `seen` were prepared before. -/
def prepareFields (setArrayKeys orderedArrayKeys : List Str) (context : String) (seen : List Str) :
    List (Str × Value) → Except CanonicalError (List (Str × Value))
  | [] => .ok []
  | (key, v) :: fields =>
    if seen.elem (nfc key) then .error (.keysCollide context (nfc key))
    else do
      let w ← prepare setArrayKeys orderedArrayKeys context (some (nfc key)) v
      let ws ← prepareFields setArrayKeys orderedArrayKeys context (nfc key :: seen) fields
      .ok ((nfc key, w) :: ws)

end

/-- `normalize_declared_arrays` of a mapping. -/
def normalizeDeclaredArrays (fields : List (Str × Value)) (setArrayKeys orderedArrayKeys : List Str)
    (context : String) : Except StoreError (List (Str × Value)) := do
  let overlap := setArrayKeys.filter (fun key => orderedArrayKeys.elem key)
  ensure (overlap = []) (.arrayKeysOverlap overlap)
  let prepared ← raising (prepareFields setArrayKeys orderedArrayKeys context [] fields)
  .ok (sortKeys prepared)

/-- `normalize_declared_arrays(dict(fields), …) if fields else None`. -/
def normalizeIfAny (fields : Option (List (Str × Value)))
    (setArrayKeys orderedArrayKeys : List Str) (context : String) :
    Except StoreError (Option (List (Str × Value))) :=
  match fields with
  | none => .ok none
  | some [] => .ok none
  | some (f :: fields) => do
      let prepared ← normalizeDeclaredArrays (f :: fields) setArrayKeys orderedArrayKeys context
      .ok (some prepared)

variable {setArrayKeys orderedArrayKeys : List Str} {context : String}

theorem prepareItems_eq (items : List Value) :
    prepareItems setArrayKeys orderedArrayKeys context items =
      collect (prepare setArrayKeys orderedArrayKeys context none) items := by
  induction items with
  | nil => rfl
  | cons v items ih => rw [prepareItems, collect, ih]

variable {fields gs : List (Str × Value)}

theorem prepareFields_ok {seen : List Str}
    (h : prepareFields setArrayKeys orderedArrayKeys context seen fields = .ok gs) :
    ((gs.map Prod.fst).Nodup ∧ ∀ g ∈ gs, g.1 ∉ seen) ∧
      List.Forall₂ (fun f g => g.1 = nfc f.1 ∧ prepare setArrayKeys orderedArrayKeys context
        (some (nfc f.1)) f.2 = .ok g.2) fields gs := by
  induction fields generalizing seen gs with
  | nil =>
    cases h
    exact ⟨⟨nodup_nil, fun g hg => absurd hg not_mem_nil⟩, List.Forall₂.nil⟩
  | cons f fields ih =>
    rcases f with ⟨key, v⟩
    rw [prepareFields] at h
    by_cases hseen : seen.elem (nfc key) = true
    · rw [if_pos hseen] at h
      cases h
    · rw [if_neg hseen] at h
      rcases bind_eq_ok.mp h with ⟨w, hw, h⟩
      rcases bind_eq_ok.mp h with ⟨ws, hws, h⟩
      cases h
      -- The keys that follow are none of those seen, this one included.
      rcases ih hws with ⟨⟨hnodup, hfresh⟩, hall⟩
      refine ⟨⟨?_, ?_⟩, List.Forall₂.cons ⟨rfl, hw⟩ hall⟩
      · rw [map_cons, nodup_cons]
        refine ⟨fun hmem => ?_, hnodup⟩
        rcases mem_map.mp hmem with ⟨g, hg, hkey⟩
        exact hfresh g hg (by rw [hkey]; exact mem_cons_self)
      · refine forall_mem_cons.mpr ⟨mt elem_iff.mpr hseen, fun g hg hmem => ?_⟩
        exact hfresh g hg (mem_cons_of_mem _ hmem)

/-- Prepared properties are normal when their values are. -/
theorem prepareFields_normal
    (h : prepareFields setArrayKeys orderedArrayKeys context [] fields = .ok gs)
    (hvalues : ∀ f ∈ fields, ∀ key w,
      prepare setArrayKeys orderedArrayKeys context key f.2 = .ok w → normalize w = .ok w) :
    normalizeMapping (sortKeys gs) = .ok (sortKeys gs) := by
  rcases prepareFields_ok h with ⟨⟨hnodup, -⟩, hall⟩
  have hperm := sortKeys_perm gs
  have hself : normalizeFields [] (sortKeys gs) = .ok (sortKeys gs) := by
    refine normalizeFields_self ((hperm.map Prod.fst).nodup_iff.mpr hnodup) ?_ ?_
    · intro g hg
      rcases forall₂_mem_right hall (hperm.mem_iff.mp hg) with ⟨f, -, hkey, -⟩
      rw [hkey, nfc_nfc]
    · intro g hg
      rcases forall₂_mem_right hall (hperm.mem_iff.mp hg) with ⟨f, hf, -, hvalue⟩
      exact hvalues f hf _ g.2 hvalue
  rw [normalizeMapping, hself, ok_bind, sortKeys_sortKeys]

/-- What is stored of a value is normal. -/
theorem prepare_normal {key : Option Str} {v w : Value}
    (h : prepare setArrayKeys orderedArrayKeys context key v = .ok w) : normalize w = .ok w := by
  induction v using Value.rec_mem generalizing key w with
  | null => exact normalize_idem h
  | bool b => exact normalize_idem h
  | num i => exact normalize_idem h
  | str s => exact normalize_idem h
  | float => exact normalize_idem h
  | unsupported => exact normalize_idem h
  | arr items ih =>
    rw [prepare] at h
    split at h
    · rcases bind_eq_ok.mp h with ⟨elements, helements, h⟩
      rw [prepareItems_eq] at helements
      have hnormal : ∀ u ∈ elements, normalize u = .ok u := by
        intro u hu
        rcases (mem_collect helements).mp hu with ⟨v, hv, hvu⟩
        exact ih v hv hvu
      cases h
      refine normalize_arr.mpr ⟨_, collect_self (fun u hu => hnormal u ?_), rfl⟩
      -- Ordering a set leaves it the same elements.
      by_cases hset : declared setArrayKeys key = true
      · rw [if_pos hset] at hu
        exact (Ordering.mem_ordered encoded_injective).mp hu
      · rwa [if_neg hset] at hu
    · cases h
  | obj fields ih =>
    rw [prepare] at h
    rcases bind_eq_ok.mp h with ⟨gs, hgs, h⟩
    cases h
    exact normalize_mapping.mpr
      ⟨sortKeys gs, prepareFields_normal hgs (fun f hf key w => ih f hf), rfl⟩

theorem normalizeDeclaredArrays_normal
    (h : normalizeDeclaredArrays fields setArrayKeys orderedArrayKeys context = .ok gs) :
    normalizeMapping gs = .ok gs := by
  rcases bind_eq_ok.mp h with ⟨-, -, h⟩
  rcases bind_eq_ok.mp h with ⟨prepared, hprepared, h⟩
  cases h
  exact prepareFields_normal (raising_eq_ok.mp hprepared) (fun f _ key w => prepare_normal)

theorem normalizeIfAny_normal {fields gs : Option (List (Str × Value))}
    (h : normalizeIfAny fields setArrayKeys orderedArrayKeys context = .ok gs) :
    ∀ g, gs = some g → normalizeMapping g = .ok g := by
  intro g hg
  rw [normalizeIfAny.eq_def] at h
  split at h
  · rw [← Except.ok.inj h] at hg
    cases hg
  · rw [← Except.ok.inj h] at hg
    cases hg
  · rcases bind_eq_ok.mp h with ⟨prepared, hprepared, h⟩
    rw [← Option.some.inj ((Except.ok.inj h).trans hg)]
    exact normalizeDeclaredArrays_normal hprepared

end Content

section Identities

/-- `compute_edge_id`. -/
def computeEdgeId [Unicode] [Hashing] (subjectKey predicate objectKey : Str) : Str :=
  let unit := Char.ofNat 0x1f
  "edge:".toList ++ sha256Prefixed (JsonText.utf8
    (nfc subjectKey ++ unit :: (nfc predicate ++ unit :: nfc objectKey)))

/-- The document that an observation is identified by. -/
structure ObservationIdentity where
  path : Str
  startLine : Int
  endLine : Int
  extractor : Str
  extractorVersion : Str
  observedKind : Str
  ordinal : Int
  referentText : Option Str
  revisionKind : Str
  revisionValue : Str
  schemaVersion : Str
  subjectKind : Str
  subjectKey : Str

/-- The document that an assertion is identified by. -/
structure AssertionIdentity where
  derivedFrom : List DerivedFrom
  predicate : Str
  producer : Str
  producerVersion : Str
  schemaVersion : Str
  subjectKind : Str
  subjectKey : Str
  truthClass : Str
  value : List (Str × Value)

/-- `_identity_evidence`, of a path that was normalized. -/
def identityEvidence (i : ObservationIdentity) : Value :=
  .obj [("end_line".toList, .num i.endLine), ("extractor".toList, .str i.extractor),
    ("extractor_version".toList, .str i.extractorVersion), ("path".toList, .str i.path),
    ("start_line".toList, .num i.startLine)]

def ObservationIdentity.document (i : ObservationIdentity) : Value :=
  .obj [("evidence".toList, identityEvidence i), ("observed_kind".toList, .str i.observedKind),
    ("ordinal".toList, .num i.ordinal), ("referent_text".toList, textOrNull i.referentText),
    ("revision".toList, .obj [("kind".toList, .str i.revisionKind),
      ("value".toList, .str i.revisionValue)]),
    ("schema_version".toList, .str i.schemaVersion),
    ("subject".toList, endpoint i.subjectKind i.subjectKey)]

def AssertionIdentity.document (i : AssertionIdentity) : Value :=
  .obj [("derived_from".toList, arrayOf i.derivedFrom), ("predicate".toList, .str i.predicate),
    ("producer".toList, .str i.producer), ("producer_version".toList, .str i.producerVersion),
    ("schema_version".toList, .str i.schemaVersion),
    ("subject".toList, endpoint i.subjectKind i.subjectKey),
    ("truth_class".toList, .str i.truthClass), ("value".toList, .obj i.value)]

variable [Unicode] [Hashing]

/-- `compute_observation_id`. -/
def computeObservationId (i : ObservationIdentity) : Except CanonicalError Str := do
  let path ← normalizeRepoPath i.path
  let bytes ← canonicalJsonBytes { i with path := path }.document
  .ok ("obs:".toList ++ sha256Prefixed bytes)

/-- `compute_assertion_id`, of references that were sorted. -/
def computeAssertionId (i : AssertionIdentity) : Except CanonicalError Str := do
  let bytes ← canonicalJsonBytes i.document
  .ok ("assertion:".toList ++ sha256Prefixed bytes)

end Identities

section Rows

/-- `RiSnapshot`, as far as it identifies what is built. -/
structure RiSnapshot where
  snapshotId : Str
  revisionKind : Str
  revisionValue : Str
  revisionRef : Option Str
  schemaVersion : Str
  producerVersionSet : List Str
  producerSetHash : Str
  configHash : Str
  state : Str

/-- `RiNode`. A row that is not inserted yet has `0` for its identity. -/
structure RiNode where
  id : Nat
  stableKey : Str
  nodeKind : Str
  name : Option Str
  language : Option Str
  truthClass : Str
  properties : Option (List (Str × Value))

structure RiEdge where
  id : Nat
  edgeId : Str
  subjectKind : Str
  subjectKey : Str
  predicate : Str
  objectKind : Str
  objectKey : Str
  truthClass : Str
  producer : Str
  producerVersion : Str

structure RiAssertion where
  id : Nat
  assertionId : Str
  subjectKind : Str
  subjectKey : Str
  predicate : Str
  value : List (Str × Value)
  truthClass : Str
  producer : Str
  producerVersion : Str

structure RiObservation where
  id : Nat
  observationId : Str
  observedKind : Str
  subjectKind : Str
  subjectKey : Str
  referentText : Option Str
  ordinal : Int

/-- The row that a piece of evidence is of, in the one of its three columns that is not null. -/
inductive Parent where
  | node (nodeRef : Nat)
  | edge (edgeRef : Nat)
  | observation (observationRef : Nat)
  deriving DecidableEq

structure RiEvidence where
  parent : Parent
  path : Str
  startLine : Int
  endLine : Int
  logicalLineCount : Int
  granularity : Str
  extractor : Str
  extractorVersion : Str
  deriving DecidableEq

structure RiDiagnostic where
  code : Str
  category : Str
  severity : Str
  message : Str
  producer : Str
  path : Option Str
  spanStartLine : Option Int
  spanEndLine : Option Int
  subjectKey : Option Str
  objectKey : Option Str
  details : Option (List (Str × Value))

/-- The rows of a snapshot, by the order in which they were inserted. -/
structure Tables where
  nodes : List RiNode
  edges : List RiEdge
  assertions : List RiAssertion
  observations : List RiObservation
  evidence : List RiEvidence
  derivations : List RiDerivation
  diagnostics : List RiDiagnostic

def Tables.empty : Tables :=
  { nodes := [], edges := [], assertions := [], observations := [], evidence := [],
    derivations := [], diagnostics := [] }

end Rows

section Calls

/-- `Evidence`, as it is handed to a writer. -/
structure Evidence where
  path : Str
  startLine : Int
  endLine : Int
  extractor : Str
  extractorVersion : Str
  logicalLineCount : Int
  granularity : Str

/-- The arguments of `add_node`. -/
structure NodeCall where
  nodeKind : Str
  stableKey : Str
  name : Option Str
  language : Option Str
  properties : Option (List (Str × Value))
  evidence : List Evidence
  truthClass : Str
  setArrayKeys : List Str
  orderedArrayKeys : List Str

/-- The arguments of `add_observation`. -/
structure ObservationCall where
  observedKind : Str
  subjectKind : Str
  subjectKey : Str
  evidence : Evidence
  referentText : Option Str
  ordinal : Int

/-- The arguments of `add_edge`. -/
structure EdgeCall where
  subjectKind : Str
  subjectKey : Str
  predicate : Str
  objectKind : Str
  objectKey : Str
  producer : Str
  producerVersion : Str
  evidence : List Evidence
  derivedFrom : List Reference
  truthClass : Str

/-- The arguments of `add_assertion`. -/
structure AssertionCall where
  subjectKind : Str
  subjectKey : Str
  predicate : Str
  value : List (Str × Value)
  producer : Str
  producerVersion : Str
  derivedFrom : List Reference
  truthClass : Str
  setArrayKeys : List Str
  orderedArrayKeys : List Str

/-- The arguments of `add_diagnostic`. -/
structure DiagnosticCall where
  code : Str
  category : Str
  severity : Str
  message : Str
  producer : Str
  path : Option Str
  span : Option (Int × Int)
  subject : Option Str
  object : Option Str
  details : Option (List (Str × Value))
  setArrayKeys : List Str
  orderedArrayKeys : List Str

end Calls

section Equality

mutual

/-- The `==` of Python, for which `True` is `1`. -/
def pyEq : Value → Value → Bool
  | .null, .null => true
  | .bool b, .bool b' => b == b'
  | .bool b, .num i => decide (i = if b then 1 else 0)
  | .num i, .bool b => decide (i = if b then 1 else 0)
  | .num i, .num i' => decide (i = i')
  | .str s, .str s' => decide (s = s')
  | .arr items, .arr items' => pyEqItems items items'
  | .obj fields, .obj fields' => pyEqFields fields fields'
  | _, _ => false

def pyEqItems : List Value → List Value → Bool
  | [], [] => true
  | v :: items, v' :: items' => pyEq v v' && pyEqItems items items'
  | _, _ => false

def pyEqFields : List (Str × Value) → List (Str × Value) → Bool
  | [], [] => true
  | (key, v) :: fields, (key', v') :: fields' =>
    decide (key = key') && pyEq v v' && pyEqFields fields fields'
  | _, _ => false

end

/-- The comparison of `candidate` and `stored` in `add_node`. -/
def RiNode.sameAs (candidate stored : RiNode) : Bool :=
  decide ((candidate.nodeKind, candidate.name, candidate.language, candidate.truthClass) =
      (stored.nodeKind, stored.name, stored.language, stored.truthClass)) &&
    match candidate.properties, stored.properties with
    | none, none => true
    | some fields, some fields' => pyEqFields fields fields'
    | _, _ => false

/-- The comparison of `candidate` and `stored` in `add_edge`. -/
def RiEdge.sameAs (candidate stored : RiEdge) : Bool :=
  decide ((candidate.subjectKind, candidate.objectKind, candidate.truthClass, candidate.producer,
      candidate.producerVersion) =
    (stored.subjectKind, stored.objectKind, stored.truthClass, stored.producer,
      stored.producerVersion))

theorem pyEqItems_refl {items : List Value} (h : ∀ v ∈ items, pyEq v v = true) :
    pyEqItems items items = true := by
  induction items with
  | nil => rfl
  | cons v items ih =>
    rw [pyEqItems, h v mem_cons_self, Bool.true_and]
    exact ih (fun w hw => h w (mem_cons_of_mem v hw))

theorem pyEqFields_refl {fields : List (Str × Value)} (h : ∀ f ∈ fields, pyEq f.2 f.2 = true) :
    pyEqFields fields fields = true := by
  induction fields with
  | nil => rfl
  | cons f fields ih =>
    rw [pyEqFields, decide_eq_true rfl, h f mem_cons_self, Bool.true_and, Bool.true_and]
    exact ih (fun g hg => h g (mem_cons_of_mem f hg))

/-- A value that can be normalized is equal to itself. -/
theorem pyEq_refl [Unicode] {v w : Value} (h : normalize v = .ok w) : pyEq v v = true := by
  induction v using Value.rec_mem generalizing w with
  | null => rfl
  | bool b => exact beq_self_eq_true b
  | num i => exact decide_eq_true rfl
  | str s => exact decide_eq_true rfl
  | arr items ih =>
    rcases normalize_arr.mp h with ⟨ws, hws, -⟩
    refine pyEqItems_refl (fun v hv => ?_)
    rcases collect_ok_iff.mp ⟨ws, hws⟩ v hv with ⟨u, hu⟩
    exact ih v hv hu
  | obj fields ih =>
    rcases normalize_obj.mp h with ⟨gs, hgs, -⟩
    refine pyEqFields_refl (fun f hf => ?_)
    rcases forall₂_mem_left (normalizeFields_ok.mp hgs).2 hf with ⟨g, -, -, hvalue⟩
    exact ih f hf hvalue
  | float => cases h
  | unsupported => cases h

end Equality

section Writers

variable [Unicode] [Hashing]

/-- `_require_building`. -/
def requireBuilding (snapshot : RiSnapshot) : Except StoreError Unit :=
  ensure (snapshot.state = "building".toList) (.notBuilding snapshot.snapshotId snapshot.state)

/-- `flush`, which fails when the tables do not accept what was inserted. -/
def flush (constraints : Tables → Bool) (t : Tables) : Except StoreError Tables :=
  if constraints t then .ok t else .error .integrity

/-- The checks of `_add_evidence`, and the row that is looked for. -/
def evidenceRow (parent : Parent) (record : Evidence) : Except StoreError RiEvidence := do
  let path ← raising (normalizeRepoPath record.path)
  let extractor := nfc record.extractor
  let extractorVersion := nfc record.extractorVersion
  ensure (path ≠ []) (.refused "evidence path must identify a repository-relative file")
  ensure (record.granularity = "span".toList ∨ record.granularity = "file".toList)
    (.refused "evidence granularity must be 'span' or 'file'")
  ensure (extractor ≠ [] ∧ extractorVersion ≠ [])
    (.refused "evidence extractor and extractor_version are required")
  ensure (1 ≤ record.startLine ∧ record.startLine ≤ record.endLine ∧
      record.endLine ≤ record.logicalLineCount)
    (.invalidSpan record.startLine record.endLine path record.logicalLineCount)
  .ok {
    parent := parent
    path := path
    startLine := record.startLine
    endLine := record.endLine
    logicalLineCount := record.logicalLineCount
    granularity := record.granularity
    extractor := extractor
    extractorVersion := extractorVersion }

/-- The columns by which evidence is looked for. -/
def RiEvidence.sameRecord (row stored : RiEvidence) : Bool :=
  decide ((stored.parent, stored.path, stored.startLine, stored.endLine) =
      (row.parent, row.path, row.startLine, row.endLine) ∧
    (stored.granularity, stored.extractor, stored.extractorVersion) =
      (row.granularity, row.extractor, row.extractorVersion))

/-- `_add_evidence`. -/
def addEvidence (constraints : Tables → Bool) (parent : Parent) (t : Tables) (record : Evidence) :
    Except StoreError Tables := do
  let row ← evidenceRow parent record
  match t.evidence.find? row.sameRecord with
  | some stored =>
    if stored.logicalLineCount = record.logicalLineCount then .ok t
    else .error (.conflictingLines row.path stored.logicalLineCount record.logicalLineCount)
  | none => flush constraints { t with evidence := t.evidence ++ [row] }

def refKindOf : ReferenceKind → RefKind
  | .observation => .observation
  | .node => .node
  | .edge => .edge
  | .assertion => .assertion

/-- The checks of `_add_derivation`, and the row that is looked for. -/
def derivationRow (owner : DerivationGraph.Owner) (reference : Reference) :
    Except StoreError RiDerivation :=
  match (reference.lookup "kind".toList).bind ReferenceKind.ofName? with
  | none => .error (.refused "derived_from contains an unsupported reference kind")
  | some kind =>
    let identity := (reference.lookup kind.identityField.toList).getD []
    if (∀ f ∈ reference, f.1 = "kind".toList ∨ f.1 = kind.identityField.toList) ∧
        identity ≠ [] then
      .ok { owner := owner, refKind := refKindOf kind, refIdentity := nfc identity }
    else .error (.refused "derived_from reference does not match the RFC tagged shape")

/-- `_add_derivation`. -/
def addDerivation (constraints : Tables → Bool) (owner : DerivationGraph.Owner) (t : Tables)
    (reference : Reference) : Except StoreError Tables := do
  let row ← derivationRow owner reference
  if t.derivations.elem row then .ok t
  else flush constraints { t with derivations := t.derivations ++ [row] }

def nodeRow (call : NodeCall) : Except StoreError RiNode := do
  let stableKey ← raising (normalizeStableKey (nfc call.nodeKind) call.stableKey)
  let properties ← normalizeIfAny call.properties call.setArrayKeys call.orderedArrayKeys
    "node properties"
  .ok {
    id := 0
    stableKey := stableKey
    nodeKind := nfc call.nodeKind
    name := call.name.map nfc
    language := call.language.map nfc
    truthClass := call.truthClass
    properties := properties }

/-- `add_node`. -/
def addNode (constraints : Tables → Bool) (snapshot : RiSnapshot) (call : NodeCall) (t : Tables) :
    Except StoreError Tables := do
  requireBuilding snapshot
  let row ← nodeRow call
  match t.nodes.find? (fun r => decide (r.stableKey = row.stableKey)) with
  | some stored => do
      ensure (row.sameAs stored)
        (.refusedOf "conflicting node records share stable key …" row.stableKey)
      call.evidence.foldlM (addEvidence constraints (.node stored.id)) t
  | none => do
      let row := { row with id := t.nodes.length }
      let t ← flush constraints { t with nodes := t.nodes ++ [row] }
      call.evidence.foldlM (addEvidence constraints (.node row.id)) t

def observationRow (snapshot : RiSnapshot) (call : ObservationCall) :
    Except StoreError RiObservation := do
  let observedKind ← raising (validatePredicate call.observedKind)
  let subjectKind := nfc call.subjectKind
  let subjectKey ← raising (normalizeStableKey subjectKind call.subjectKey)
  let referentText := call.referentText.map nfc
  let observationId ← raising (computeObservationId {
    path := call.evidence.path
    startLine := call.evidence.startLine
    endLine := call.evidence.endLine
    extractor := call.evidence.extractor
    extractorVersion := call.evidence.extractorVersion
    observedKind := observedKind
    ordinal := call.ordinal
    referentText := referentText
    revisionKind := snapshot.revisionKind
    revisionValue := snapshot.revisionValue
    schemaVersion := snapshot.schemaVersion
    subjectKind := subjectKind
    subjectKey := subjectKey })
  .ok {
    id := 0
    observationId := observationId
    observedKind := observedKind
    subjectKind := subjectKind
    subjectKey := subjectKey
    referentText := referentText
    ordinal := call.ordinal }

/-- `add_observation`. -/
def addObservation (constraints : Tables → Bool) (snapshot : RiSnapshot) (call : ObservationCall)
    (t : Tables) : Except StoreError Tables := do
  requireBuilding snapshot
  let row ← observationRow snapshot call
  match t.observations.find? (fun r => decide (r.observationId = row.observationId)) with
  | some stored => addEvidence constraints (.observation stored.id) t call.evidence
  | none => do
      let row := { row with id := t.observations.length }
      let t ← flush constraints { t with observations := t.observations ++ [row] }
      addEvidence constraints (.observation row.id) t call.evidence

def edgeRow (call : EdgeCall) : Except StoreError RiEdge := do
  let subjectKind := nfc call.subjectKind
  let objectKind := nfc call.objectKind
  let subjectKey ← raising (normalizeStableKey subjectKind call.subjectKey)
  let objectKey ← raising (normalizeStableKey objectKind call.objectKey)
  let predicate ← raising (validatePredicate call.predicate)
  .ok {
    id := 0
    edgeId := computeEdgeId subjectKey predicate objectKey
    subjectKind := subjectKind
    subjectKey := subjectKey
    predicate := predicate
    objectKind := objectKind
    objectKey := objectKey
    truthClass := call.truthClass
    producer := nfc call.producer
    producerVersion := nfc call.producerVersion }

/-- The loops over `evidence` and `derived_from` in `add_edge`. -/
def supportEdge (constraints : Tables → Bool) (call : EdgeCall) (id : Nat) (t : Tables) :
    Except StoreError Tables := do
  let t ← call.evidence.foldlM (addEvidence constraints (.edge id)) t
  call.derivedFrom.foldlM (addDerivation constraints (.edge id)) t

/-- `add_edge`. -/
def addEdge (constraints : Tables → Bool) (snapshot : RiSnapshot) (call : EdgeCall) (t : Tables) :
    Except StoreError Tables := do
  requireBuilding snapshot
  let row ← edgeRow call
  match t.edges.find? (fun r => decide (r.edgeId = row.edgeId)) with
  | some stored => do
      ensure (row.sameAs stored) (.refusedOf "conflicting edge records share identity …" row.edgeId)
      supportEdge constraints call stored.id t
  | none => do
      let row := { row with id := t.edges.length }
      let t ← flush constraints { t with edges := t.edges ++ [row] }
      supportEdge constraints call row.id t

def assertionRow (snapshot : RiSnapshot) (call : AssertionCall) :
    Except StoreError RiAssertion := do
  let subjectKind := nfc call.subjectKind
  let subjectKey ← raising (normalizeStableKey subjectKind call.subjectKey)
  let predicate ← raising (validatePredicate call.predicate)
  let value ← normalizeDeclaredArrays call.value call.setArrayKeys call.orderedArrayKeys
    "assertion value"
  let producer := nfc call.producer
  let producerVersion := nfc call.producerVersion
  let derivedFrom ← raising (sortDerivedFrom call.derivedFrom)
  let assertionId ← raising (computeAssertionId {
    derivedFrom := derivedFrom
    predicate := predicate
    producer := producer
    producerVersion := producerVersion
    schemaVersion := snapshot.schemaVersion
    subjectKind := subjectKind
    subjectKey := subjectKey
    truthClass := call.truthClass
    value := value })
  .ok {
    id := 0
    assertionId := assertionId
    subjectKind := subjectKind
    subjectKey := subjectKey
    predicate := predicate
    value := value
    truthClass := call.truthClass
    producer := producer
    producerVersion := producerVersion }

/-- `add_assertion`. The identity covers the derivations, so those of a row that is found are not
    looked at. -/
def addAssertion (constraints : Tables → Bool) (snapshot : RiSnapshot) (call : AssertionCall)
    (t : Tables) : Except StoreError Tables := do
  requireBuilding snapshot
  let row ← assertionRow snapshot call
  match t.assertions.find? (fun r => decide (r.assertionId = row.assertionId)) with
  | some _ => .ok t
  | none => do
      let row := { row with id := t.assertions.length }
      let t ← flush constraints { t with assertions := t.assertions ++ [row] }
      call.derivedFrom.foldlM (addDerivation constraints (.assertion row.id)) t

/-- `_DIAGNOSTIC_SET_ARRAY_KEYS`. -/
def diagnosticSetArrayKeys : List Str :=
  ["candidates".toList]

def diagnosticRow (call : DiagnosticCall) : Except StoreError RiDiagnostic := do
  let path ← raising (normalizeOptionalPath call.path)
  ensure (∀ span ∈ call.span, 1 ≤ span.1 ∧ span.1 ≤ span.2)
    (.refused "diagnostic spans must be one-based and inclusive")
  let details ← normalizeIfAny call.details (diagnosticSetArrayKeys ++ call.setArrayKeys)
    call.orderedArrayKeys "diagnostic details"
  .ok {
    code := nfc call.code
    category := nfc call.category
    severity := nfc call.severity
    message := nfc call.message
    producer := nfc call.producer
    path := path
    spanStartLine := call.span.map Prod.fst
    spanEndLine := call.span.map Prod.snd
    subjectKey := call.subject.map nfc
    objectKey := call.object.map nfc
    details := details }

/-- `add_diagnostic`. -/
def addDiagnostic (constraints : Tables → Bool) (snapshot : RiSnapshot) (call : DiagnosticCall)
    (t : Tables) : Except StoreError Tables := do
  requireBuilding snapshot
  let row ← diagnosticRow call
  flush constraints { t with diagnostics := t.diagnostics ++ [row] }

/-- A call of a writer. -/
inductive Call where
  | node (call : NodeCall)
  | observation (call : ObservationCall)
  | edge (call : EdgeCall)
  | assertion (call : AssertionCall)
  | diagnostic (call : DiagnosticCall)

def perform (constraints : Tables → Bool) (snapshot : RiSnapshot) :
    Call → Tables → Except StoreError Tables
  | .node call => addNode constraints snapshot call
  | .observation call => addObservation constraints snapshot call
  | .edge call => addEdge constraints snapshot call
  | .assertion call => addAssertion constraints snapshot call
  | .diagnostic call => addDiagnostic constraints snapshot call

/-- Writing a snapshot, one call that returns at a time. -/
def building (constraints : Tables → Bool) (snapshot : RiSnapshot) : StepSystem Tables Call where
  init t := t = Tables.empty
  step t call := (perform constraints snapshot call t).toOption

end Writers

section Growth

/-- Rows have only been appended. -/
structure Tables.Extends (t t' : Tables) : Prop where
  nodes : t.nodes <+: t'.nodes
  edges : t.edges <+: t'.edges
  assertions : t.assertions <+: t'.assertions
  observations : t.observations <+: t'.observations
  evidence : t.evidence <+: t'.evidence
  derivations : t.derivations <+: t'.derivations
  diagnostics : t.diagnostics <+: t'.diagnostics

theorem Tables.Extends.refl (t : Tables) : t.Extends t :=
  ⟨prefix_refl _, prefix_refl _, prefix_refl _, prefix_refl _,
    prefix_refl _, prefix_refl _, prefix_refl _⟩

variable {t t' : Tables} {constraints : Tables → Bool} {row : RiEvidence} {parent : Parent}
  {record : Evidence} {owner : DerivationGraph.Owner} {reference : Reference}

theorem Tables.Extends.trans {t'' : Tables} (h : t.Extends t') (h' : t'.Extends t'') :
    t.Extends t'' :=
  ⟨h.nodes.trans h'.nodes, h.edges.trans h'.edges, h.assertions.trans h'.assertions,
    h.observations.trans h'.observations, h.evidence.trans h'.evidence,
    h.derivations.trans h'.derivations, h.diagnostics.trans h'.diagnostics⟩

theorem flush_eq_ok : flush constraints t = .ok t' ↔ constraints t = true ∧ t' = t := by
  rw [flush]
  by_cases hc : constraints t = true
  · rw [if_pos hc, Except.ok.injEq]
    exact ⟨fun h => ⟨hc, h.symm⟩, fun h => h.2.symm⟩
  · rw [if_neg hc]
    exact iff_of_false (fun h => by cases h) (fun h => hc h.1)

variable [Unicode]

omit [Unicode] in
theorem RiEvidence.sameRecord_iff {stored : RiEvidence} :
    row.sameRecord stored = true ↔
      stored = { row with logicalLineCount := stored.logicalLineCount } := by
  rcases row
  rcases stored
  simp [RiEvidence.sameRecord, and_assoc]

/-- What `_add_evidence` does: the record is there, or it is appended. -/
theorem addEvidence_cases (h : addEvidence constraints parent t record = .ok t') :
    ∃ row, evidenceRow parent record = .ok row ∧
      ((∃ stored, t.evidence.find? row.sameRecord = some stored ∧
          stored.logicalLineCount = record.logicalLineCount ∧ t' = t) ∨
        t.evidence.find? row.sameRecord = none ∧
          t' = { t with evidence := t.evidence ++ [row] }) := by
  rcases bind_eq_ok.mp h with ⟨row, hrow, h⟩
  refine ⟨row, hrow, ?_⟩
  split at h
  next stored hfind =>
    by_cases hlines : stored.logicalLineCount = record.logicalLineCount
    · rw [if_pos hlines] at h
      exact .inl ⟨stored, hfind, hlines, (Except.ok.inj h).symm⟩
    · rw [if_neg hlines] at h
      cases h
  next hfind => exact .inr ⟨hfind, (flush_eq_ok.mp h).2⟩

/-- What `_add_derivation` does: the reference is there, or it is appended. -/
theorem addDerivation_cases (h : addDerivation constraints owner t reference = .ok t') :
    ∃ row, derivationRow owner reference = .ok row ∧
      (row ∈ t.derivations ∧ t' = t ∨
        row ∉ t.derivations ∧ t' = { t with derivations := t.derivations ++ [row] }) := by
  rcases bind_eq_ok.mp h with ⟨row, hrow, h⟩
  refine ⟨row, hrow, ?_⟩
  by_cases hmem : row ∈ t.derivations
  · rw [if_pos (elem_iff.mpr hmem)] at h
    exact .inl ⟨hmem, (Except.ok.inj h).symm⟩
  · rw [if_neg (fun he => hmem (elem_iff.mp he))] at h
    exact .inr ⟨hmem, (flush_eq_ok.mp h).2⟩

/-- There is a record for this evidence. -/
def HasEvidence (t : Tables) (parent : Parent) (record : Evidence) : Prop :=
  ∃ row stored, evidenceRow parent record = .ok row ∧
    t.evidence.find? row.sameRecord = some stored ∧
    stored.logicalLineCount = record.logicalLineCount

/-- There is a derivation for this reference. -/
def HasDerivation (t : Tables) (owner : DerivationGraph.Owner) (reference : Reference) : Prop :=
  ∃ row, derivationRow owner reference = .ok row ∧ row ∈ t.derivations

theorem HasEvidence.extends (h : HasEvidence t parent record) (ht : t.Extends t') :
    HasEvidence t' parent record := by
  rcases h with ⟨row, stored, hrow, hfind, hlines⟩
  exact ⟨row, stored, hrow, find?_prefix ht.evidence hfind, hlines⟩

theorem HasDerivation.extends (h : HasDerivation t owner reference) (ht : t.Extends t') :
    HasDerivation t' owner reference := by
  rcases h with ⟨row, hrow, hmem⟩
  exact ⟨row, hrow, ht.derivations.subset hmem⟩

theorem evidenceRow_lines (h : evidenceRow parent record = .ok row) :
    row.logicalLineCount = record.logicalLineCount := by
  simp only [evidenceRow, bind_eq_ok] at h
  rcases h with ⟨path, -, -, -, -, -, -, -, -, -, h⟩
  rw [← Except.ok.inj h]

variable {constraints : Tables → Bool}

theorem addEvidence_does (h : addEvidence constraints parent t record = .ok t') :
    t.Extends t' ∧ HasEvidence t' parent record := by
  rcases addEvidence_cases h with ⟨row, hrow, ⟨stored, hfind, hlines, rfl⟩ | ⟨hfind, rfl⟩⟩
  · exact ⟨Tables.Extends.refl _, row, stored, hrow, hfind, hlines⟩
  · have hsame : row.sameRecord row = true := RiEvidence.sameRecord_iff.mpr rfl
    exact ⟨{ Tables.Extends.refl t with evidence := prefix_append _ _ }, row, row, hrow,
      find?_concat hfind hsame, evidenceRow_lines hrow⟩

theorem addDerivation_does (h : addDerivation constraints owner t reference = .ok t') :
    t.Extends t' ∧ HasDerivation t' owner reference := by
  rcases addDerivation_cases h with ⟨row, hrow, ⟨hmem, rfl⟩ | ⟨-, rfl⟩⟩
  · exact ⟨Tables.Extends.refl _, row, hrow, hmem⟩
  · exact ⟨{ Tables.Extends.refl t with derivations := prefix_append _ _ }, row, hrow,
      mem_append_right _ mem_cons_self⟩

theorem HasEvidence.add (h : HasEvidence t parent record) :
    addEvidence constraints parent t record = .ok t := by
  rcases h with ⟨row, stored, hrow, hfind, hlines⟩
  simp only [addEvidence, hrow, ok_bind, hfind, if_pos hlines]

theorem HasDerivation.add (h : HasDerivation t owner reference) :
    addDerivation constraints owner t reference = .ok t := by
  rcases h with ⟨row, hrow, hmem⟩
  simp only [addDerivation, hrow, ok_bind, if_pos (elem_iff.mpr hmem)]

theorem evidence_loop {records : List Evidence}
    (h : records.foldlM (addEvidence constraints parent) t = .ok t') :
    t.Extends t' ∧ ∀ record ∈ records, HasEvidence t' parent record := by
  have hkeep : ∀ t t' record, t.Extends t' → HasEvidence t parent record →
      HasEvidence t' parent record := fun _ _ _ ht hs => hs.extends ht
  exact ⟨foldlM_rel Tables.Extends.refl (fun _ _ _ => Tables.Extends.trans)
      (fun _ _ _ _ hs => (addEvidence_does hs).1) h,
    foldlM_done (R := Tables.Extends) .refl (fun _ _ _ => Tables.Extends.trans) hkeep
      (fun _ _ _ _ hs => addEvidence_does hs) h⟩

theorem derivation_loop {references : List Reference}
    (h : references.foldlM (addDerivation constraints owner) t = .ok t') :
    t.Extends t' ∧ ∀ reference ∈ references, HasDerivation t' owner reference := by
  have hkeep : ∀ t t' reference, t.Extends t' → HasDerivation t owner reference →
      HasDerivation t' owner reference := fun _ _ _ ht hs => hs.extends ht
  exact ⟨foldlM_rel Tables.Extends.refl (fun _ _ _ => Tables.Extends.trans)
      (fun _ _ _ _ hs => (addDerivation_does hs).1) h,
    foldlM_done (R := Tables.Extends) .refl (fun _ _ _ => Tables.Extends.trans) hkeep
      (fun _ _ _ _ hs => addDerivation_does hs) h⟩

end Growth

section Retries

variable [Unicode] [Hashing] {constraints : Tables → Bool} {snapshot : RiSnapshot}

variable {row : RiNode} {t t' : Tables} {call : Call}

omit [Hashing] in
theorem nodeRow_properties {call : NodeCall} (h : nodeRow call = .ok row) :
    ∀ fields, row.properties = some fields → normalizeMapping fields = .ok fields := by
  rcases bind_eq_ok.mp h with ⟨stableKey, -, h⟩
  rcases bind_eq_ok.mp h with ⟨properties, hproperties, h⟩
  cases h
  exact normalizeIfAny_normal hproperties

omit [Hashing] in
theorem sameAs_self
    (h : ∀ fields, row.properties = some fields → normalizeMapping fields = .ok fields) :
    row.sameAs row = true := by
  rw [RiNode.sameAs, decide_eq_true rfl, Bool.true_and]
  cases hproperties : row.properties with
  | none => rfl
  | some fields =>
    have hnormal : Canonical.normalize (.obj fields) = .ok (.obj fields) :=
      normalize_mapping.mpr ⟨fields, h fields hproperties, rfl⟩
    exact pyEq_refl hnormal

/-- There is nothing left to do for a call. -/
def Settled (snapshot : RiSnapshot) (t : Tables) : Call → Prop
  | .node call => ∃ row stored, nodeRow call = .ok row ∧
      t.nodes.find? (fun r => decide (r.stableKey = row.stableKey)) = some stored ∧
      row.sameAs stored = true ∧ ∀ record ∈ call.evidence, HasEvidence t (.node stored.id) record
  | .observation call => ∃ row stored, observationRow snapshot call = .ok row ∧
      t.observations.find? (fun r => decide (r.observationId = row.observationId)) = some stored ∧
      HasEvidence t (.observation stored.id) call.evidence
  | .edge call => ∃ row stored, edgeRow call = .ok row ∧
      t.edges.find? (fun r => decide (r.edgeId = row.edgeId)) = some stored ∧
      row.sameAs stored = true ∧
      (∀ record ∈ call.evidence, HasEvidence t (.edge stored.id) record) ∧
      ∀ reference ∈ call.derivedFrom, HasDerivation t (.edge stored.id) reference
  | .assertion call => ∃ row stored, assertionRow snapshot call = .ok row ∧
      t.assertions.find? (fun r => decide (r.assertionId = row.assertionId)) = some stored
  | .diagnostic _ => False

theorem Settled.extends (h : Settled snapshot t call) (ht : t.Extends t') :
    Settled snapshot t' call := by
  cases call with
  | node call =>
    rcases h with ⟨row, stored, hrow, hfind, hsame, hevidence⟩
    exact ⟨row, stored, hrow, find?_prefix ht.nodes hfind, hsame,
      fun record hr => (hevidence record hr).extends ht⟩
  | observation call =>
    rcases h with ⟨row, stored, hrow, hfind, hevidence⟩
    exact ⟨row, stored, hrow, find?_prefix ht.observations hfind, hevidence.extends ht⟩
  | edge call =>
    rcases h with ⟨row, stored, hrow, hfind, hsame, hevidence, hderived⟩
    exact ⟨row, stored, hrow, find?_prefix ht.edges hfind, hsame,
      fun record hr => (hevidence record hr).extends ht,
      fun reference hr => (hderived reference hr).extends ht⟩
  | assertion call =>
    rcases h with ⟨row, stored, hrow, hfind⟩
    exact ⟨row, stored, hrow, find?_prefix ht.assertions hfind⟩
  | diagnostic call => exact h

omit [Hashing] in
theorem supportEdge_does {call : EdgeCall} {id : Nat}
    (h : supportEdge constraints call id t = .ok t') :
    t.Extends t' ∧ (∀ record ∈ call.evidence, HasEvidence t' (.edge id) record) ∧
      ∀ reference ∈ call.derivedFrom, HasDerivation t' (.edge id) reference := by
  rcases bind_eq_ok.mp h with ⟨u, hu, h⟩
  have hevidence := evidence_loop hu
  have hderived := derivation_loop h
  exact ⟨hevidence.1.trans hderived.1,
    fun record hr => (hevidence.2 record hr).extends hderived.1, hderived.2⟩

omit [Unicode] [Hashing] in
theorem requireBuilding_eq_ok {u : Unit} :
    requireBuilding snapshot = .ok u ↔ snapshot.state = "building".toList :=
  ensure_eq_ok

/-- A call that returns only appends rows, and leaves nothing to do for it. -/
theorem perform_does (h : perform constraints snapshot call t = .ok t') :
    snapshot.state = "building".toList ∧ t.Extends t' ∧
      ((∀ c, call ≠ .diagnostic c) → Settled snapshot t' call) := by
  cases call with
  | node call =>
    rcases bind_eq_ok.mp h with ⟨_, hbuilding, h⟩
    rcases bind_eq_ok.mp h with ⟨row, hrow, h⟩
    refine ⟨requireBuilding_eq_ok.mp hbuilding, ?_⟩
    split at h
    next stored hfind =>
      rcases bind_eq_ok.mp h with ⟨_, hsame, h⟩
      have hloop := evidence_loop h
      exact ⟨hloop.1, fun _ => ⟨row, stored, hrow, find?_prefix hloop.1.nodes hfind,
        ensure_eq_ok.mp hsame, hloop.2⟩⟩
    next hfind =>
      rcases bind_eq_ok.mp h with ⟨u, hflush, h⟩
      rw [(flush_eq_ok.mp hflush).2] at h
      have hloop := evidence_loop h
      -- From now on the row is found by its key.
      have hfound := find?_prefix hloop.1.nodes (find?_concat hfind (decide_eq_true rfl))
      exact ⟨{ hloop.1 with nodes := (prefix_append _ _).trans hloop.1.nodes },
        fun _ => ⟨row, _, hrow, hfound, sameAs_self (nodeRow_properties hrow), hloop.2⟩⟩
  -- The other calls go the same way: the row is found, or it is inserted and found from then on.
  | observation call =>
    rcases bind_eq_ok.mp h with ⟨_, hbuilding, h⟩
    rcases bind_eq_ok.mp h with ⟨row, hrow, h⟩
    refine ⟨requireBuilding_eq_ok.mp hbuilding, ?_⟩
    split at h
    next stored hfind =>
      have hadd := addEvidence_does h
      exact ⟨hadd.1, fun _ => ⟨row, stored, hrow, find?_prefix hadd.1.observations hfind,
        hadd.2⟩⟩
    next hfind =>
      rcases bind_eq_ok.mp h with ⟨u, hflush, h⟩
      rw [(flush_eq_ok.mp hflush).2] at h
      have hadd := addEvidence_does h
      have hfound := find?_prefix hadd.1.observations (find?_concat hfind (decide_eq_true rfl))
      exact ⟨{ hadd.1 with observations := (prefix_append _ _).trans hadd.1.observations },
        fun _ => ⟨row, _, hrow, hfound, hadd.2⟩⟩
  | edge call =>
    rcases bind_eq_ok.mp h with ⟨_, hbuilding, h⟩
    rcases bind_eq_ok.mp h with ⟨row, hrow, h⟩
    refine ⟨requireBuilding_eq_ok.mp hbuilding, ?_⟩
    split at h
    next stored hfind =>
      rcases bind_eq_ok.mp h with ⟨_, hsame, h⟩
      have hsupport := supportEdge_does h
      exact ⟨hsupport.1, fun _ => ⟨row, stored, hrow, find?_prefix hsupport.1.edges hfind,
        ensure_eq_ok.mp hsame, hsupport.2⟩⟩
    next hfind =>
      rcases bind_eq_ok.mp h with ⟨u, hflush, h⟩
      rw [(flush_eq_ok.mp hflush).2] at h
      have hsupport := supportEdge_does h
      have hfound := find?_prefix hsupport.1.edges (find?_concat hfind (decide_eq_true rfl))
      exact ⟨{ hsupport.1 with edges := (prefix_append _ _).trans hsupport.1.edges },
        fun _ => ⟨row, _, hrow, hfound, decide_eq_true rfl, hsupport.2⟩⟩
  | assertion call =>
    rcases bind_eq_ok.mp h with ⟨_, hbuilding, h⟩
    rcases bind_eq_ok.mp h with ⟨row, hrow, h⟩
    refine ⟨requireBuilding_eq_ok.mp hbuilding, ?_⟩
    split at h
    next stored hfind =>
      cases h
      exact ⟨Tables.Extends.refl t, fun _ => ⟨row, stored, hrow, hfind⟩⟩
    next hfind =>
      rcases bind_eq_ok.mp h with ⟨u, hflush, h⟩
      rw [(flush_eq_ok.mp hflush).2] at h
      have hloop := derivation_loop h
      have hfound := find?_prefix hloop.1.assertions (find?_concat hfind (decide_eq_true rfl))
      exact ⟨{ hloop.1 with assertions := (prefix_append _ _).trans hloop.1.assertions },
        fun _ => ⟨row, _, hrow, hfound⟩⟩
  -- A diagnostic is appended whatever is there.
  | diagnostic call =>
    rcases bind_eq_ok.mp h with ⟨_, hbuilding, h⟩
    rcases bind_eq_ok.mp h with ⟨row, -, h⟩
    rw [(flush_eq_ok.mp h).2]
    exact ⟨requireBuilding_eq_ok.mp hbuilding,
      { Tables.Extends.refl t with diagnostics := prefix_append _ _ },
      fun hcall => absurd rfl (hcall call)⟩

/-- A call for which nothing is left to do changes nothing. -/
theorem Settled.perform (h : Settled snapshot t call)
    (hbuilding : snapshot.state = "building".toList) :
    perform constraints snapshot call t = .ok t := by
  have hrequire : requireBuilding snapshot = .ok () := requireBuilding_eq_ok.mpr hbuilding
  cases call with
  | node call =>
    rcases h with ⟨row, stored, hrow, hfind, hsame, hevidence⟩
    have hensure : ensure (row.sameAs stored = true)
        (StoreError.refusedOf "conflicting node records share stable key …" row.stableKey) =
          .ok () := ensure_eq_ok.mpr hsame
    simp only [SnapshotStore.perform, addNode, hrequire, hrow, ok_bind, hfind, hensure]
    exact foldlM_same (fun record hr => (hevidence record hr).add)
  | observation call =>
    rcases h with ⟨row, stored, hrow, hfind, hevidence⟩
    simp only [SnapshotStore.perform, addObservation, hrequire, hrow, ok_bind,
      hfind]
    exact hevidence.add
  | edge call =>
    rcases h with ⟨row, stored, hrow, hfind, hsame, hevidence, hderived⟩
    have hensure : ensure (row.sameAs stored = true)
        (StoreError.refusedOf "conflicting edge records share identity …" row.edgeId) =
          .ok () := ensure_eq_ok.mpr hsame
    simp only [SnapshotStore.perform, addEdge, hrequire, hrow, ok_bind, hfind, hensure,
      supportEdge]
    rw [foldlM_same (fun record hr => (hevidence record hr).add), ok_bind]
    exact foldlM_same (fun reference hr => (hderived reference hr).add)
  | assertion call =>
    rcases h with ⟨row, stored, hrow, hfind⟩
    simp only [SnapshotStore.perform, addAssertion, hrequire, hrow, ok_bind,
      hfind]
  | diagnostic call => exact absurd h id

theorem step_eq_some :
    (building constraints snapshot).step t call = some t' ↔
      perform constraints snapshot call t = .ok t' := by
  simp only [building]
  cases perform constraints snapshot call t with
  | error e => exact iff_of_false (fun h => by cases h) (fun h => by cases h)
  | ok u => rw [Except.toOption, Option.some.injEq, Except.ok.injEq]

/-- A build appends rows, and leaves nothing to do for its calls. -/
theorem exec_does {calls : List Call} (h : (building constraints snapshot).exec t calls = some t') :
    t.Extends t' ∧ ∀ call ∈ calls, snapshot.state = "building".toList ∧
      ((∀ c, call ≠ .diagnostic c) → Settled snapshot t' call) := by
  induction calls generalizing t with
  | nil =>
    rw [← Option.some.inj h]
    exact ⟨Tables.Extends.refl t, fun call hcall => absurd hcall not_mem_nil⟩
  | cons call calls ih =>
    rw [StepSystem.exec] at h
    split at h
    · cases h
    · next u hstep =>
      rcases perform_does (step_eq_some.mp hstep) with ⟨hbuilding, hextends, hsettled⟩
      rcases ih h with ⟨hlater, hall⟩
      refine ⟨hextends.trans hlater,
        forall_mem_cons.mpr ⟨⟨hbuilding, fun hcall => ?_⟩, hall⟩⟩
      exact (hsettled hcall).extends hlater

/-- Calls that have returned, of anything but diagnostics, change nothing when they are made again,
    in any order and any number of times. -/
theorem rewriting_changes_nothing {calls again : List Call} {t : Tables}
    (h : (building constraints snapshot).exec Tables.empty calls = some t)
    (hagain : ∀ call ∈ again, call ∈ calls ∧ ∀ c, call ≠ .diagnostic c) :
    (building constraints snapshot).exec t again = some t := by
  induction again with
  | nil => rfl
  | cons call again ih =>
    rcases hagain call mem_cons_self with ⟨hmem, hcall⟩
    rcases (exec_does h).2 call hmem with ⟨hbuilding, hsettled⟩
    have hstep : (building constraints snapshot).step t call = some t :=
      step_eq_some.mpr ((hsettled hcall).perform hbuilding)
    -- The tables are as before, so the other calls are settled in them too.
    rw [StepSystem.exec, hstep]
    exact ih (fun c hc => hagain c (mem_cons_of_mem call hc))

end Retries

section Samples

local instance writerText : Unicode := asciiText

local instance writerHash : Hashing := sha256

/-- A snapshot of a Git revision, with one producer. -/
def sampleSnapshot : RiSnapshot where
  snapshotId := "snap_1".toList
  revisionKind := "git".toList
  revisionValue := List.replicate 40 'a'
  revisionRef := none
  schemaVersion := "ri.v1".toList
  producerVersionSet := ["inventory@1".toList]
  producerSetHash := sha256Prefixed (JsonText.utf8 (text (.arr [.str "inventory@1".toList])))
  configHash := "sha256:".toList ++ List.replicate 64 'b'
  state := "building".toList

def sampleRecord (path : String) : Evidence where
  path := path.toList
  startLine := 1
  endLine := 2
  extractor := "inventory".toList
  extractorVersion := "1".toList
  logicalLineCount := 2
  granularity := "file".toList

def sampleNode (kind key path : String) : Call :=
  .node {
    nodeKind := kind.toList
    stableKey := key.toList
    name := none
    language := none
    properties := none
    evidence := [sampleRecord path]
    truthClass := "observed".toList
    setArrayKeys := []
    orderedArrayKeys := [] }

/-- The repository and a file, of which two spellings are given. -/
def sampleCalls : List Call :=
  [sampleNode "repository" "repo:root" "a.py", sampleNode "file" "file:./src/a.py" "src//a.py"]

def sampleRow (parent : Parent) (path : String) : RiEvidence where
  parent := parent
  path := path.toList
  startLine := 1
  endLine := 2
  logicalLineCount := 2
  granularity := "file".toList
  extractor := "inventory".toList
  extractorVersion := "1".toList

def sampleTables : Tables :=
  { Tables.empty with
    nodes := [
      { id := 0, stableKey := "repo:root".toList, nodeKind := "repository".toList, name := none,
        language := none, truthClass := "observed".toList, properties := none },
      { id := 1, stableKey := "file:src/a.py".toList, nodeKind := "file".toList, name := none,
        language := none, truthClass := "observed".toList, properties := none }]
    evidence := [sampleRow (.node 0) "a.py", sampleRow (.node 1) "src/a.py"] }

theorem exec_sample : (building (fun _ => true) sampleSnapshot).exec Tables.empty sampleCalls =
    some sampleTables := by
  rfl

/-- The file is written again. -/
theorem rewriting_changes_nothing_sample :
    (building (fun _ => true) sampleSnapshot).exec sampleTables
      [sampleNode "file" "file:./src/a.py" "src//a.py"] = some sampleTables := by
  refine rewriting_changes_nothing exec_sample (fun call hcall => ?_)
  rw [mem_singleton.mp hcall]
  exact ⟨mem_cons_of_mem _ mem_cons_self, fun c hc => by cases hc⟩

end Samples

end SnapshotStore

end Partha
