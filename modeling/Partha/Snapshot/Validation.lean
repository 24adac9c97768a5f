import Partha.Library.Dict
import Partha.Library.Rows
import Partha.Snapshot.Writers

/-!
# The Validation of a Snapshot

Before a snapshot is sealed, everything that was checked when its facts were written is checked
again, in case somebody has edited the rows: that keys, paths and contents are normal, that spans
lie in their files, that identities are those of the contents. Then what could not be checked before
is checked: that the facts that others refer to are there, that facts have evidence and come from
somewhere, and that their producers were declared.

Of a snapshot that the writers alone have filled, the checks of the first kind pass, with two
exceptions. A path with a drive in front, or a key with such a path, comes out of the normalization
and is not let in again. And an observation that is reported once for lines and once for a file has
one identity and two pieces of evidence.

## Main definitions

* `begin`, `validate`: `begin` and `_validate`.
* `WellFormed`: What the writers establish.
* `Sealable`: What is left to be checked.

## Theorems

* `wellFormed_perform`, `wellFormed_reachable`: The writers establish it.
* `writers_keep`: Rows are only appended, and are well formed.
* `validate_exact`: What the validation of a snapshot finds.
-/

namespace Partha

namespace SnapshotStore

open Canonical Checked AppendOnly
open DerivationGraph (RefKind RiDerivation)
open List

section Definitions

/-- `[0-9a-f]`. -/
def isHex (c : Char) : Bool :=
  ('0' ≤ c && c ≤ '9') || ('a' ≤ c && c ≤ 'f')

def isHexOf (length : Nat) (s : Str) : Bool :=
  decide (s.length = length) && s.all isHex

/-- `_HASH_RE` and `_UPLOAD_REVISION_RE`. -/
def isContentHash (s : Str) : Bool :=
  (stripPrefix "sha256:".toList s).any (isHexOf 64)

structure Revision where
  kind : Str
  value : Str
  ref : Option Str

/-- `_validate_revision`. -/
def validateRevision (revision : Revision) : Except StoreError Unit :=
  if revision.kind = "git".toList then do
    ensure (isHexOf 40 revision.value)
      (.refused "git revisions require a 40-character lowercase commit SHA")
    ensure (∀ ref ∈ revision.ref, "refs/".toList.isPrefixOf ref)
      (.refused "git revision refs must be normalized under refs/")
  else if revision.kind = "upload".toList then
    ensure (isContentHash revision.value ∧ revision.ref = none)
      (.refused "upload revisions require sha256 content identity and a null ref")
  else .error (.refused "revision kind must be 'git' or 'upload'")

/-- The revision columns of a repository. -/
structure RepositoryRecord where
  revisionKind : Option Str
  revisionValue : Option Str

/-- `_require_matching_repository`, with the row that `get` returns. -/
def requireMatchingRepository (repository : Option RepositoryRecord) (revision : Revision) :
    Except StoreError Unit := do
  validateRevision revision
  match repository with
  | none => .error (.refused "snapshot repository does not exist")
  | some repository =>
    ensure ((repository.revisionKind, repository.revisionValue) =
        (some revision.kind, some revision.value))
      (.refused "snapshot revision does not match its repository revision")

/-- A producer with its version. -/
def isProducerVersion (producer : Str) : Bool :=
  producer.elem '@' && !(['@'].isPrefixOf producer) && !(['@'].isSuffixOf producer)

variable [Unicode] [Hashing]

/-- `begin`, with the configuration hash that was resolved. -/
def begin (snapshotId : Str) (repository : Option RepositoryRecord) (revision : Revision)
    (producerVersionSet : List Str) (schemaVersion configHash : Str) :
    Except StoreError RiSnapshot := do
  requireMatchingRepository repository revision
  let producers := normalizeProducerVersionSet producerVersionSet
  ensure (producers.all isProducerVersion)
    (.refused "producer_version_set entries must use 'producer@version'")
  ensure (isContentHash configHash) (.refused "config_hash must be a sha256 content identity")
  let producerSetHash ← raising (producerSetHash producers)
  .ok {
    snapshotId := snapshotId
    revisionKind := revision.kind
    revisionValue := revision.value
    revisionRef := revision.ref
    schemaVersion := schemaVersion
    producerVersionSet := producers
    producerSetHash := producerSetHash
    configHash := configHash
    state := "building".toList }

/-- `evidence_by_node`, `evidence_by_edge` and `evidence_by_observation`, at a row. -/
def evidenceOf (t : Tables) (parent : Parent) : List RiEvidence :=
  t.evidence.filter (fun e => decide (e.parent = parent))

/-- `derivations_by_edge` and `derivations_by_assertion`, at a row. -/
def derivationsOf (t : Tables) (owner : DerivationGraph.Owner) : List RiDerivation :=
  t.derivations.filter (fun d => decide (d.owner = owner))

/-- `node_kind_by_key`, in which the last row with a key counts. -/
def nodeKindByKey (t : Tables) (stableKey : Str) : Option Str :=
  ((t.nodes.map (fun n => (n.stableKey, n.nodeKind))).reverse).lookup stableKey

/-- `_require_producer`. -/
def requireProducer (snapshot : RiSnapshot) (producer version : Str) : Except StoreError Unit :=
  ensure (snapshot.producerVersionSet.elem (producer ++ '@' :: version))
    (.refusedOf "producer … is not declared in producer_version_set" (producer ++ '@' :: version))

/-- The comparison of a content that may be missing with what it is normalized to. -/
def requireNormal (content : Option (List (Str × Value))) (message : String) :
    Except StoreError Unit := do
  let normalized ← raising (normalizeMapping (content.getD []))
  match content with
  | none => .ok ()
  | some fields => ensure (pyEqFields normalized fields) (.refused message)

def validateNode (node : RiNode) : Except StoreError Unit :=
  match normalizeStableKey node.nodeKind node.stableKey with
  | .error _ => .error (.refusedOf "invalid stable key …" node.stableKey)
  | .ok normalizedKey => do
      ensure (normalizedKey = node.stableKey)
        (.refusedOf "stable key … is not normalized" node.stableKey)
      requireNormal node.properties "node properties are not canonically normalized"

/-- `_validate_stored_evidence`. -/
def validateStoredEvidence (snapshot : RiSnapshot) (e : RiEvidence) : Except StoreError Unit := do
  ensure (e.extractor ≠ [] ∧ e.extractorVersion ≠ [])
    (.refused "stored evidence extractor and extractor_version must be non-empty")
  ensure (e.granularity = "span".toList ∨ e.granularity = "file".toList)
    (.refusedOf "stored evidence has invalid granularity …" e.granularity)
  match normalizeRepoPath e.path with
  | .error _ => .error (.refusedOf
      "stored evidence path … is absolute or escapes the repository root" e.path)
  | .ok normalizedPath => do
      ensure (normalizedPath ≠ [])
        (.refused "stored evidence path must identify a repository-relative file")
      ensure (normalizedPath = e.path)
        (.refusedOf "stored evidence path … is not in normalized form" e.path)
      ensure (1 ≤ e.logicalLineCount) (.refused "stored evidence logical_line_count must be >= 1")
      ensure (1 ≤ e.startLine ∧ e.startLine ≤ e.endLine ∧ e.endLine ≤ e.logicalLineCount)
        (.invalidSpan e.startLine e.endLine e.path e.logicalLineCount)
      requireProducer snapshot e.extractor e.extractorVersion

/-- What an observation with this evidence is identified by. -/
def observationIdentity (snapshot : RiSnapshot) (o : RiObservation) (e : RiEvidence) :
    ObservationIdentity where
  path := e.path
  startLine := e.startLine
  endLine := e.endLine
  extractor := e.extractor
  extractorVersion := e.extractorVersion
  observedKind := o.observedKind
  ordinal := o.ordinal
  referentText := o.referentText
  revisionKind := snapshot.revisionKind
  revisionValue := snapshot.revisionValue
  schemaVersion := snapshot.schemaVersion
  subjectKind := o.subjectKind
  subjectKey := o.subjectKey

def validateObservation (snapshot : RiSnapshot) (t : Tables) (o : RiObservation) :
    Except StoreError Unit :=
  match evidenceOf t (.observation o.id) with
  | [e] => do
      ensure (nodeKindByKey t o.subjectKey = some o.subjectKind)
        (.refusedOf "observation … has an invalid subject" o.observationId)
      let recomputed ← raising (computeObservationId (observationIdentity snapshot o e))
      ensure (recomputed = o.observationId)
        (.refusedOf "observation … identity does not recompute" o.observationId)
  | _ => .error (.refusedOf "observation … must have exactly one evidence record" o.observationId)

def validateEdge (snapshot : RiSnapshot) (t : Tables) (edge : RiEdge) :
    Except StoreError Unit := do
  ensure (nodeKindByKey t edge.subjectKey = some edge.subjectKind ∧
      nodeKindByKey t edge.objectKey = some edge.objectKind)
    (.refusedOf "edge … references a node outside the snapshot" edge.edgeId)
  ensure (computeEdgeId edge.subjectKey edge.predicate edge.objectKey = edge.edgeId)
    (.refusedOf "edge … identity does not recompute" edge.edgeId)
  ensure (evidenceOf t (.edge edge.id) ≠ [])
    (.refusedOf "resolved edge … has no evidence" edge.edgeId)
  ensure ((derivationsOf t (.edge edge.id)).any (fun d => decide (d.refKind = .observation)))
    (.refusedOf "resolved edge … must derive from a source observation" edge.edgeId)
  requireProducer snapshot edge.producer edge.producerVersion

def referenceKindOf : RefKind → ReferenceKind
  | .observation => .observation
  | .node => .node
  | .edge => .edge
  | .assertion => .assertion

/-- The reference that a derivation stands for. -/
def referenceOf (d : RiDerivation) : DerivedFrom :=
  { kind := referenceKindOf d.refKind, identity := d.refIdentity }

/-- `_derivation_refs`. -/
def derivationRefs (derivations : List RiDerivation) : List Reference :=
  derivations.map (fun d => (referenceOf d).asMapping)

/-- What an assertion with these derivations is identified by. -/
def assertionIdentity (snapshot : RiSnapshot) (a : RiAssertion) (derivedFrom : List DerivedFrom) :
    AssertionIdentity where
  derivedFrom := derivedFrom
  predicate := a.predicate
  producer := a.producer
  producerVersion := a.producerVersion
  schemaVersion := snapshot.schemaVersion
  subjectKind := a.subjectKind
  subjectKey := a.subjectKey
  truthClass := a.truthClass
  value := a.value

def validateAssertion (snapshot : RiSnapshot) (t : Tables) (a : RiAssertion) :
    Except StoreError Unit := do
  ensure (nodeKindByKey t a.subjectKey = some a.subjectKind)
    (.refusedOf "assertion … references a node outside the snapshot" a.assertionId)
  let references := derivationRefs (derivationsOf t (.assertion a.id))
  ensure (references ≠ []) (.refusedOf "inferred assertion … has no derivation" a.assertionId)
  let derivedFrom ← raising (sortDerivedFrom references)
  let recomputed ← raising (computeAssertionId (assertionIdentity snapshot a derivedFrom))
  ensure (recomputed = a.assertionId)
    (.refusedOf "assertion … identity does not recompute" a.assertionId)
  requireNormal (some a.value) "assertion value is not canonically normalized"
  requireProducer snapshot a.producer a.producerVersion

def validateDiagnostic (snapshot : RiSnapshot) (d : RiDiagnostic) : Except StoreError Unit := do
  ensure (snapshot.producerVersionSet.elem d.producer)
    (.refusedOf "diagnostic producer … is not in the producer set" d.producer)
  ensure (d.spanStartLine.isNone = d.spanEndLine.isNone)
    (.refused "diagnostic span endpoints must either both be present or both be null")
  requireNormal d.details "diagnostic details are not canonically normalized"

/-- What the keys and the foreign keys of the tables say about derived facts. -/
def Constrained (t : Tables) : Prop :=
  ((t.edges.map RiEdge.id).Nodup ∧ (t.edges.map RiEdge.edgeId).Nodup) ∧
    ((t.assertions.map RiAssertion.id).Nodup ∧ (t.assertions.map RiAssertion.assertionId).Nodup) ∧
    ∀ d ∈ t.derivations, (∀ id ∈ d.edgeRef, id ∈ t.edges.map RiEdge.id) ∧
      ∀ id ∈ d.assertionRef, id ∈ t.assertions.map RiAssertion.id

instance (t : Tables) : Decidable (Constrained t) :=
  inferInstanceAs (Decidable (_ ∧ _ ∧ _))

/-- The facts as the check of the derivation graph has them. -/
def graphFacts (t : Tables) (h : Constrained t) : DerivationGraph.Facts where
  nodes := t.nodes.map RiNode.stableKey
  edges := t.edges.map (fun e => { id := e.id, identity := e.edgeId })
  assertions := t.assertions.map (fun a => { id := a.id, identity := a.assertionId })
  observations := t.observations.map RiObservation.observationId
  derivations := t.derivations
  edgeRows := by rw [List.map_map]; exact h.1.1
  edgeIds := by rw [List.map_map]; exact h.1.2
  assertionRows := by rw [List.map_map]; exact h.2.1.1
  assertionIds := by rw [List.map_map]; exact h.2.1.2
  edgeOwned := by
    intro d hd id hid
    rw [List.map_map]
    exact (h.2.2 d hd).1 id hid
  assertionOwned := by
    intro d hd id hid
    rw [List.map_map]
    exact (h.2.2 d hd).2 id hid

/-- `_validate_derivation_graph`, with all the recursion that it needs. That Python gives up on a
    chain of derivations as long as its recursion limit is left out. -/
def validateGraph (t : Tables) : Except StoreError Unit :=
  if h : Constrained t then
    match DerivationGraph.validateDerivationGraph (t.edges.length + t.assertions.length)
        (graphFacts t h) with
    | .ok _ => .ok ()
    | .error failure => .error (.graph failure)
  else .error .integrity

/-- `_validate`. -/
def validate (snapshot : RiSnapshot) (t : Tables) : Except StoreError Unit := do
  let normalizedProducers := normalizeProducerVersionSet snapshot.producerVersionSet
  ensure (snapshot.producerVersionSet = normalizedProducers)
    (.refused "producer_version_set is not normalized")
  let producerSetHash ← raising (producerSetHash normalizedProducers)
  ensure (snapshot.producerSetHash = producerSetHash)
    (.refused "producer_set_hash does not match producer_version_set")
  ensure (isContentHash snapshot.configHash)
    (.refused "config_hash is not a canonical sha256 identity")
  validateRevision {
    kind := snapshot.revisionKind
    value := snapshot.revisionValue
    ref := snapshot.revisionRef }
  ensure (∀ d ∈ t.diagnostics, d.severity ≠ "fatal".toList)
    (.refused "snapshot has a fatal diagnostic and cannot seal")
  ensure ((t.nodes.filter (fun n => decide (n.nodeKind = "repository".toList))).map
      RiNode.stableKey = ["repo:root".toList])
    (.refused "a completed snapshot must contain exactly one repo:root node")
  each validateNode t.nodes
  each (validateStoredEvidence snapshot) t.evidence
  each (fun n => ensure (n.truthClass = "observed".toList → evidenceOf t (.node n.id) ≠ [])
    (.refusedOf "observed node … has no evidence" n.stableKey)) t.nodes
  each (validateObservation snapshot t) t.observations
  each (validateEdge snapshot t) t.edges
  each (validateAssertion snapshot t) t.assertions
  validateGraph t
  each (validateDiagnostic snapshot) t.diagnostics

end Definitions

section Invariant

variable [Unicode] [Hashing]

/-- The key of something of this kind has come out of the normalization. -/
def Keyed (kind key : Str) : Prop :=
  ∃ raw, normalizeStableKey kind raw = .ok key

/-- What is known of a node that was written. -/
structure NodeOk (n : RiNode) : Prop where
  key : Keyed n.nodeKind n.stableKey
  properties : ∀ fields, n.properties = some fields → normalizeMapping fields = .ok fields

/-- What is known of evidence that was written. -/
structure EvidenceOk (e : RiEvidence) : Prop where
  path : (∃ raw, normalizeRepoPath raw = .ok e.path) ∧ e.path ≠ []
  extractor : e.extractor ≠ [] ∧ e.extractorVersion ≠ []
  granularity : e.granularity = "span".toList ∨ e.granularity = "file".toList
  span : 1 ≤ e.startLine ∧ e.startLine ≤ e.endLine ∧ e.endLine ≤ e.logicalLineCount

/-- An edge is identified by its ends and its predicate. -/
structure EdgeOk (e : RiEdge) : Prop where
  subject : Keyed e.subjectKind e.subjectKey
  object : Keyed e.objectKind e.objectKey
  identified : computeEdgeId e.subjectKey e.predicate e.objectKey = e.edgeId

/-- What is known of a derivation that was written. -/
structure DerivationOk (d : RiDerivation) : Prop where
  normal : nfc d.refIdentity = d.refIdentity
  nonempty : d.refIdentity ≠ []

/-- An observation has evidence that it is identified by. -/
def ObservationOk (snapshot : RiSnapshot) (evidence : List RiEvidence) (o : RiObservation) : Prop :=
  ∃ e ∈ evidence, e.parent = .observation o.id ∧
    ∃ bytes, canonicalJsonBytes (observationIdentity snapshot o e).document = .ok bytes ∧
      o.observationId = "obs:".toList ++ sha256Prefixed bytes

/-- An assertion is identified by its derivations, and its value is normal. -/
structure AssertionOk (snapshot : RiSnapshot) (derivations : List RiDerivation)
    (a : RiAssertion) : Prop where
  subject : Keyed a.subjectKind a.subjectKey
  value : normalizeMapping a.value = .ok a.value
  identified : ∃ references derivedFrom, sortDerivedFrom references = .ok derivedFrom ∧
    (∀ d, d ∈ results prepareReference references ↔
      ∃ row ∈ derivations, row.owner = .assertion a.id ∧ referenceOf row = d) ∧
    computeAssertionId (assertionIdentity snapshot a derivedFrom) = .ok a.assertionId

/-- What is known of a diagnostic that was written. -/
structure DiagnosticOk (d : RiDiagnostic) : Prop where
  path : ∀ path, d.path = some path → ∃ raw, normalizeRepoPath raw = .ok path
  keys : d.subjectKey.map nfc = d.subjectKey ∧ d.objectKey.map nfc = d.objectKey
  span : d.spanStartLine.isNone = d.spanEndLine.isNone
  details : ∀ fields, d.details = some fields → normalizeMapping fields = .ok fields

/-- A derivation is of a row. -/
def Owned (edges assertions : Nat) (d : RiDerivation) : Prop :=
  match d.owner with
  | .edge id => id < edges
  | .assertion id => id < assertions

/-- What the writers establish. -/
structure WellFormed (snapshot : RiSnapshot) (t : Tables) : Prop where
  nodeRows : Numbered RiNode.id t.nodes
  nodeKeys : (t.nodes.map RiNode.stableKey).Nodup
  edgeRows : Numbered RiEdge.id t.edges
  edgeIds : (t.edges.map RiEdge.edgeId).Nodup
  assertionRows : Numbered RiAssertion.id t.assertions
  assertionIds : (t.assertions.map RiAssertion.assertionId).Nodup
  observationRows : Numbered RiObservation.id t.observations
  observationIds : (t.observations.map RiObservation.observationId).Nodup
  evidenceRows : t.evidence.Nodup
  nodes : ∀ n ∈ t.nodes, NodeOk n
  edges : ∀ e ∈ t.edges, EdgeOk e
  assertions : ∀ a ∈ t.assertions, AssertionOk snapshot t.derivations a
  observations : ∀ o ∈ t.observations, ObservationOk snapshot t.evidence o
  observationKeys : ∀ o ∈ t.observations, Keyed o.subjectKind o.subjectKey
  evidence : ∀ e ∈ t.evidence, EvidenceOk e
  derivations : ∀ d ∈ t.derivations, DerivationOk d
  owned : ∀ d ∈ t.derivations, Owned t.edges.length t.assertions.length d
  diagnostics : ∀ d ∈ t.diagnostics, DiagnosticOk d

variable {snapshot : RiSnapshot} {t t' : Tables}

theorem wellFormed_empty : WellFormed snapshot Tables.empty where
  nodeRows := numbered_nil _
  nodeKeys := nodup_nil
  edgeRows := numbered_nil _
  edgeIds := nodup_nil
  assertionRows := numbered_nil _
  assertionIds := nodup_nil
  observationRows := numbered_nil _
  observationIds := nodup_nil
  evidenceRows := nodup_nil
  nodes _ hn := absurd hn not_mem_nil
  edges _ he := absurd he not_mem_nil
  assertions _ ha := absurd ha not_mem_nil
  observations _ ho := absurd ho not_mem_nil
  observationKeys _ ho := absurd ho not_mem_nil
  evidence _ he := absurd he not_mem_nil
  derivations _ hd := absurd hd not_mem_nil
  owned _ hd := absurd hd not_mem_nil
  diagnostics _ hd := absurd hd not_mem_nil

variable {parent : Parent} {record : Evidence} {owner : DerivationGraph.Owner}
  {reference : Reference} {row : RiDerivation} {constraints : Tables → Bool}
  {more : List RiDerivation} {id : Nat} {call : EdgeCall}

omit [Hashing] in
theorem evidenceRow_ok {row : RiEvidence} (h : evidenceRow parent record = .ok row) :
    EvidenceOk row ∧ row.parent = parent := by
  simp only [evidenceRow, bind_eq_ok, ensure_eq_ok, raising_eq_ok] at h
  rcases h with ⟨path, hpath, _, hne, _, hgranularity, _, hextractor, _, hspan, h⟩
  cases h
  exact ⟨⟨⟨⟨record.path, hpath⟩, hne⟩, hextractor, hgranularity, hspan⟩, rfl⟩

omit [Hashing] in
theorem derivationRow_ok (h : derivationRow owner reference = .ok row) :
    DerivationOk row ∧ row.owner = owner := by
  rw [derivationRow] at h
  split at h
  · cases h
  · dsimp only at h
    split at h
    next hshape =>
      cases h
      exact ⟨⟨nfc_nfc _, nfc_ne_nil _ hshape.2⟩, rfl⟩
    · cases h

/-- The evidence of a well-formed snapshot may grow. -/
theorem WellFormed.evidence_append (h : WellFormed snapshot t) {more : List RiEvidence}
    (hnodup : (t.evidence ++ more).Nodup) (hmore : ∀ e ∈ more, EvidenceOk e) :
    WellFormed snapshot { t with evidence := t.evidence ++ more } :=
  { h with
    evidenceRows := hnodup
    evidence := fun e he => (mem_append.mp he).elim (h.evidence e) (hmore e)
    observations := fun o ho => (h.observations o ho).imp
      (fun _ he => ⟨mem_append_left more he.1, he.2⟩) }

/-- What `_add_evidence` does to a well-formed snapshot. -/
theorem WellFormed.addEvidence (h : WellFormed snapshot t)
    (hadd : addEvidence constraints parent t record = .ok t') : WellFormed snapshot t' := by
  rcases addEvidence_cases hadd with ⟨row, hrow, ⟨_, -, -, rfl⟩ | ⟨hfind, rfl⟩⟩
  · exact h
  · have hnew : row ∉ t.evidence := fun hmem =>
      List.find?_eq_none.mp hfind row hmem (RiEvidence.sameRecord_iff.mpr rfl)
    refine h.evidence_append ?_ (fun e he => ?_)
    · exact nodup_append.mpr ⟨h.evidenceRows, nodup_singleton row,
        fun e he e' he' hee => hnew (by rw [← mem_singleton.mp he', ← hee]; exact he)⟩
    · rw [mem_singleton.mp he]
      exact (evidenceRow_ok hrow).1

theorem WellFormed.evidence_loop {records : List Evidence} (h : WellFormed snapshot t)
    (hloop : records.foldlM (SnapshotStore.addEvidence constraints parent) t = .ok t') :
    WellFormed snapshot t' := by
  have hkeep := foldlM_rel (R := fun t t' => WellFormed snapshot t → WellFormed snapshot t')
    (fun _ ht => ht) (fun _ _ _ hs hs' ht => hs' (hs ht))
    (fun _ _ _ _ hs ht => WellFormed.addEvidence ht hs) hloop
  exact hkeep h

omit [Hashing] in
/-- What the loop over `derived_from` appends. -/
theorem derivation_rows {references : List Reference}
    (hloop : references.foldlM (addDerivation constraints owner) t = .ok t') :
    ∃ more, t' = { t with derivations := t.derivations ++ more } ∧
      ∀ d ∈ more, ∃ reference ∈ references, derivationRow owner reference = .ok d := by
  induction references generalizing t with
  | nil =>
    refine ⟨[], ?_, fun d hd => absurd hd not_mem_nil⟩
    rw [← Except.ok.inj hloop, append_nil]
  | cons reference references ih =>
    rw [foldlM_cons] at hloop
    rcases bind_eq_ok.mp hloop with ⟨u, hu, hloop⟩
    rcases ih hloop with ⟨more, rfl, hmore⟩
    have hlater : ∀ d ∈ more, ∃ r ∈ reference :: references, derivationRow owner r = .ok d :=
      fun d hd => (hmore d hd).imp (fun r hr => ⟨mem_cons_of_mem reference hr.1, hr.2⟩)
    rcases addDerivation_cases hu with ⟨row, hrow, ⟨-, rfl⟩ | ⟨-, rfl⟩⟩
    · exact ⟨more, rfl, hlater⟩
    · refine ⟨row :: more, by rw [append_assoc]; rfl, forall_mem_cons.mpr ⟨?_, hlater⟩⟩
      exact ⟨reference, mem_cons_self, hrow⟩

omit [Hashing] in
/-- The text of a key in a mapping that was normalized. -/
theorem strField_normalized {fields : List (Str × Str)} {record : List (Str × Value)}
    (h : normalizeMapping (fields.map (fun f => (f.1, .str f.2))) = .ok record) {key : String}
    (hkey : nfc key.toList = key.toList) {v : Str} (hv : fields.lookup key.toList = some v) :
    strField key (.obj record) = nfc v := by
  rcases bind_eq_ok.mp h with ⟨gs, hgs, he⟩
  cases he
  rcases normalizeFields_ok.mp hgs with ⟨⟨hnodup, -⟩, hall⟩
  have hmem : (key.toList, v) ∈ fields := Dict.mem_of_lookup hv
  rcases forall₂_mem_left hall (mem_map.mpr ⟨_, hmem, rfl⟩) with ⟨g, hg, hgkey, hgval⟩
  have hsorted : ((sortKeys gs).map Prod.fst).Nodup := by
    rw [((sortKeys_perm gs).map Prod.fst).nodup_iff, normalizeFields_keys hall]
    exact hnodup
  have hentry : (key.toList, .str (nfc v)) ∈ sortKeys gs := by
    rw [(sortKeys_perm gs).mem_iff, ← normalize_text.mp hgval]
    dsimp only at hgkey
    rw [← hkey, ← hgkey]
    exact hg
  have hlookup : (sortKeys gs).lookup key.toList = some (.str (nfc v)) :=
    (Dict.mem_iff_lookup hsorted).mp hentry
  rw [strField, field, hlookup]

omit [Hashing] in
/-- A reference is written as it is sorted. -/
theorem referenceOf_row {d : DerivedFrom} (hrow : derivationRow owner reference = .ok row)
    (hd : prepareReference reference = .ok d) : referenceOf row = d := by
  rcases bind_eq_ok.mp hd with ⟨record, hrecord, hd⟩
  have hkindKey : nfc "kind".toList = "kind".toList := nfc_ascii _ (by decide)
  have hfieldKey : ∀ kind : ReferenceKind,
      nfc kind.identityField.toList = kind.identityField.toList := by
    intro kind
    refine nfc_ascii _ ?_
    cases kind <;> decide
  rw [derivationRow] at hrow
  split at hrow
  · cases hrow
  next kind hkind =>
    rcases Option.bind_eq_some_iff.mp hkind with ⟨name, hname, hkind⟩
    have hascii : nfc name = name := by
      -- The name of a kind is ASCII.
      have heq : name = kind.name := by
        revert hkind
        rw [ReferenceKind.ofName?]
        split_ifs with h1 h2 h3 h4
        · exact fun h => by rw [← Option.some.inj h]; exact h1
        · exact fun h => by rw [← Option.some.inj h]; exact h2
        · exact fun h => by rw [← Option.some.inj h]; exact h3
        · exact fun h => by rw [← Option.some.inj h]; exact h4
        · exact fun h => by cases h
      rw [heq]
      exact kind.nfc_name
    rw [strField_normalized hrecord hkindKey hname, hascii, hkind] at hd
    dsimp only at hrow hd
    split at hrow
    next hshape =>
      cases hidentity : reference.lookup kind.identityField.toList with
      | none =>
        rw [hidentity] at hshape
        exact absurd rfl hshape.2
      | some identity =>
        rw [strField_normalized hrecord (hfieldKey kind) hidentity] at hd
        split at hd
        · rw [← Except.ok.inj hd, ← Except.ok.inj hrow, referenceOf, hidentity]
          cases kind <;> rfl
        · cases hd
    · cases hrow

theorem AssertionOk.append {derivations : List RiDerivation} {a : RiAssertion}
    (h : AssertionOk snapshot derivations a) (hmore : ∀ d ∈ more, d.owner ≠ .assertion a.id) :
    AssertionOk snapshot (derivations ++ more) a := by
  rcases h.identified with ⟨references, derivedFrom, hsort, hrows, hid⟩
  refine ⟨h.subject, h.value, references, derivedFrom, hsort, fun d => ?_, hid⟩
  rw [hrows]
  constructor
  · rintro ⟨row, hrow, howner⟩
    exact ⟨row, mem_append_left more hrow, howner⟩
  · rintro ⟨row, hrow, howner⟩
    rcases mem_append.mp hrow with hrow | hrow
    · exact ⟨row, hrow, howner⟩
    · exact absurd howner.1 (hmore row hrow)

omit [Unicode] [Hashing] in
theorem Owned.mono {edges edges' assertions assertions' : Nat} {d : RiDerivation}
    (h : Owned edges assertions d) (hedges : edges ≤ edges')
    (hassertions : assertions ≤ assertions') : Owned edges' assertions' d := by
  rw [Owned] at h ⊢
  cases howner : d.owner with
  | edge id =>
    rw [howner] at h
    exact lt_of_lt_of_le h hedges
  | assertion id =>
    rw [howner] at h
    exact lt_of_lt_of_le h hassertions

/-- Edges are given derivations. -/
theorem WellFormed.edge_derivations (h : WellFormed snapshot t) (hid : id < t.edges.length)
    (hmore : ∀ d ∈ more, DerivationOk d ∧ d.owner = .edge id) :
    WellFormed snapshot { t with derivations := t.derivations ++ more } :=
  { h with
    derivations := fun d hd => (mem_append.mp hd).elim (h.derivations d)
      (fun hd => (hmore d hd).1)
    owned := fun d hd => (mem_append.mp hd).elim (h.owned d)
      (fun hd => by rw [Owned, (hmore d hd).2]; exact hid)
    assertions := fun a ha => (h.assertions a ha).append
      (fun d hd he => by rw [(hmore d hd).2] at he; cases he) }

omit [Hashing] in
theorem nodeRow_ok {call : NodeCall} {row : RiNode} (h : nodeRow call = .ok row) : NodeOk row := by
  have hproperties := nodeRow_properties h
  rcases bind_eq_ok.mp h with ⟨stableKey, hkey, h⟩
  rcases bind_eq_ok.mp h with ⟨properties, -, h⟩
  rw [← Except.ok.inj h] at hproperties ⊢
  exact ⟨⟨call.stableKey, raising_eq_ok.mp hkey⟩, hproperties⟩

theorem WellFormed.node (h : WellFormed snapshot t) {row : RiNode} (hrow : NodeOk row)
    (hkey : row.stableKey ∉ t.nodes.map RiNode.stableKey) :
    WellFormed snapshot { t with nodes := t.nodes ++ [{ row with id := t.nodes.length }] } :=
  { h with
    nodeRows := h.nodeRows.concat rfl
    nodeKeys := nodup_concat h.nodeKeys hkey
    nodes := forall_mem_append.mpr
      ⟨h.nodes, forall_mem_singleton.mpr ⟨hrow.key, hrow.properties⟩⟩ }

theorem WellFormed.edge (h : WellFormed snapshot t) {row : RiEdge} (hrow : EdgeOk row)
    (hkey : row.edgeId ∉ t.edges.map RiEdge.edgeId) :
    WellFormed snapshot { t with edges := t.edges ++ [{ row with id := t.edges.length }] } :=
  { h with
    edgeRows := h.edgeRows.concat rfl
    edgeIds := nodup_concat h.edgeIds hkey
    edges := forall_mem_append.mpr ⟨h.edges, forall_mem_singleton.mpr
      ⟨hrow.subject, hrow.object, hrow.identified⟩⟩
    owned := fun d hd => (h.owned d hd).mono
      (by rw [length_append]; exact Nat.le_add_right _ _) le_rfl }

theorem edgeRow_ok {row : RiEdge} (h : edgeRow call = .ok row) : EdgeOk row := by
  rcases bind_eq_ok.mp h with ⟨subjectKey, hsubject, h⟩
  rcases bind_eq_ok.mp h with ⟨objectKey, hobject, h⟩
  rcases bind_eq_ok.mp h with ⟨predicate, -, h⟩
  cases h
  exact ⟨⟨_, raising_eq_ok.mp hsubject⟩, ⟨_, raising_eq_ok.mp hobject⟩, rfl⟩

/-- The loops of `add_edge`, for an edge that is there. -/
theorem WellFormed.supportEdge (h : WellFormed snapshot t) (hid : id < t.edges.length)
    (hsupport : supportEdge constraints call id t = .ok t') : WellFormed snapshot t' := by
  rcases bind_eq_ok.mp hsupport with ⟨u, hu, hloop⟩
  have hwell := h.evidence_loop hu
  have hextends := (SnapshotStore.evidence_loop hu).1
  rcases derivation_rows hloop with ⟨more, rfl, hmore⟩
  refine hwell.edge_derivations (lt_of_lt_of_le hid hextends.edges.length_le) (fun d hd => ?_)
  rcases hmore d hd with ⟨reference, -, hrow⟩
  exact derivationRow_ok hrow

omit [Hashing] in
theorem canonicalJsonBytes_congr {v v' : Value} (h : normalize v = normalize v') :
    canonicalJsonBytes v = canonicalJsonBytes v' := by
  rw [canonicalJsonBytes, canonicalJsonBytes, h]

/-- An observation is identified by the evidence that is written for it. -/
theorem observationRow_ok {call : ObservationCall} {row : RiObservation} {e : RiEvidence}
    (h : observationRow snapshot call = .ok row) (he : evidenceRow parent call.evidence = .ok e) :
    Keyed row.subjectKind row.subjectKey ∧
    ∃ bytes, canonicalJsonBytes (observationIdentity snapshot row e).document = .ok bytes ∧
      row.observationId = "obs:".toList ++ sha256Prefixed bytes := by
  rcases bind_eq_ok.mp h with ⟨observedKind, -, h⟩
  rcases bind_eq_ok.mp h with ⟨subjectKey, hsubject, h⟩
  rcases bind_eq_ok.mp h with ⟨observationId, hid, h⟩
  rcases bind_eq_ok.mp (raising_eq_ok.mp hid) with ⟨path, hpath, hid⟩
  rcases bind_eq_ok.mp hid with ⟨bytes, hbytes, hid⟩
  simp only [evidenceRow, bind_eq_ok, ensure_eq_ok, raising_eq_ok] at he
  rcases he with ⟨path', hpath', _, -, _, -, _, -, _, -, he⟩
  rw [← Except.ok.inj h, ← Except.ok.inj he]
  rw [Except.ok.inj (hpath'.symm.trans hpath)]
  refine ⟨⟨_, raising_eq_ok.mp hsubject⟩, bytes, ?_, (Except.ok.inj hid).symm⟩
  rw [← hbytes]
  refine canonicalJsonBytes_congr ?_
  simp only [ObservationIdentity.document, observationIdentity, identityEvidence,
    Canonical.normalize, normalizeFields, nfc_nfc]

theorem WellFormed.observation (h : WellFormed snapshot t) {row : RiObservation}
    {evidence : List RiEvidence} (hsubject : Keyed row.subjectKind row.subjectKey)
    (hrow : ObservationOk snapshot evidence row) (hid : row.id = t.observations.length)
    (hkey : row.observationId ∉ t.observations.map RiObservation.observationId)
    (ht : WellFormed snapshot { t with evidence := evidence })
    (hgrows : t.evidence <+: evidence) :
    WellFormed snapshot { t with
      observations := t.observations ++ [row], evidence := evidence } :=
  { ht with
    observationRows := h.observationRows.concat hid
    observationIds := nodup_concat h.observationIds hkey
    observations := forall_mem_append.mpr ⟨fun o ho => (h.observations o ho).imp
      (fun _ he => ⟨hgrows.subset he.1, he.2⟩), forall_mem_singleton.mpr hrow⟩
    observationKeys := forall_mem_append.mpr
      ⟨h.observationKeys, forall_mem_singleton.mpr hsubject⟩ }

theorem WellFormed.assertion (h : WellFormed snapshot t) {row : RiAssertion}
    (hid : row.id = t.assertions.length)
    (hkey : row.assertionId ∉ t.assertions.map RiAssertion.assertionId)
    (hrow : AssertionOk snapshot (t.derivations ++ more) row)
    (hmore : ∀ d ∈ more, DerivationOk d ∧ d.owner = .assertion row.id) :
    WellFormed snapshot { t with
      assertions := t.assertions ++ [row], derivations := t.derivations ++ more } := by
  have hlength : (t.assertions ++ [row]).length = t.assertions.length + 1 := by
    rw [length_append, length_singleton]
  have hother : ∀ a ∈ t.assertions, ∀ d ∈ more, d.owner ≠ .assertion a.id := by
    intro a ha d hd he
    rw [(hmore d hd).2, DerivationGraph.Owner.assertion.injEq] at he
    have hlt := h.assertionRows.lt ha
    omega
  refine { h with
    assertionRows := h.assertionRows.concat hid
    assertionIds := nodup_concat h.assertionIds hkey
    assertions := forall_mem_append.mpr
      ⟨fun a ha => (h.assertions a ha).append (hother a ha), forall_mem_singleton.mpr hrow⟩
    derivations := forall_mem_append.mpr ⟨h.derivations, fun d hd => (hmore d hd).1⟩
    owned := forall_mem_append.mpr ⟨fun d hd => ?_, fun d hd => ?_⟩ }
  · exact (h.owned d hd).mono le_rfl (by dsimp only; omega)
  · rw [Owned, (hmore d hd).2]
    dsimp only
    omega

theorem assertionRow_ok {call : AssertionCall} {row : RiAssertion}
    (h : assertionRow snapshot call = .ok row) : Keyed row.subjectKind row.subjectKey ∧
    normalizeMapping row.value = .ok row.value ∧
      ∃ derivedFrom, sortDerivedFrom call.derivedFrom = .ok derivedFrom ∧
        computeAssertionId (assertionIdentity snapshot row derivedFrom) = .ok row.assertionId := by
  rcases bind_eq_ok.mp h with ⟨subjectKey, hsubject, h⟩
  rcases bind_eq_ok.mp h with ⟨predicate, -, h⟩
  rcases bind_eq_ok.mp h with ⟨value, hvalue, h⟩
  rcases bind_eq_ok.mp h with ⟨derivedFrom, hderived, h⟩
  rcases bind_eq_ok.mp h with ⟨assertionId, hid, h⟩
  cases h
  exact ⟨⟨_, raising_eq_ok.mp hsubject⟩, normalizeDeclaredArrays_normal hvalue, derivedFrom,
    raising_eq_ok.mp hderived, raising_eq_ok.mp hid⟩

omit [Hashing] in
theorem normalizeOptionalPath_some {given stored : Option Str}
    (h : normalizeOptionalPath given = .ok stored) :
    ∀ path, stored = some path → ∃ raw, normalizeRepoPath raw = .ok path := by
  rintro path rfl
  cases given with
  | none => cases h
  | some raw =>
    rcases bind_eq_ok.mp h with ⟨path', hpath, h⟩
    cases h
    exact ⟨raw, hpath⟩

omit [Hashing] in
theorem map_nfc_again (key : Option Str) : (key.map nfc).map nfc = key.map nfc := by
  rw [Option.map_map]
  exact congrArg (fun f => key.map f) (funext nfc_nfc)

/-- A call that returns keeps what the writers establish. -/
theorem wellFormed_perform {call : Call} (h : WellFormed snapshot t)
    (hperform : perform constraints snapshot call t = .ok t') : WellFormed snapshot t' := by
  cases call with
  | node call =>
    rcases bind_eq_ok.mp hperform with ⟨-, -, hperform⟩
    rcases bind_eq_ok.mp hperform with ⟨row, hrow, hperform⟩
    split at hperform
    · rcases bind_eq_ok.mp hperform with ⟨-, -, hloop⟩
      exact h.evidence_loop hloop
    next hfind =>
      rcases bind_eq_ok.mp hperform with ⟨u, hflush, hloop⟩
      rw [(flush_eq_ok.mp hflush).2] at hloop
      exact (h.node (nodeRow_ok hrow) (not_mem_of_find? hfind)).evidence_loop hloop
  | observation call =>
    rcases bind_eq_ok.mp hperform with ⟨-, -, hperform⟩
    rcases bind_eq_ok.mp hperform with ⟨row, hrow, hperform⟩
    split at hperform
    · exact h.addEvidence hperform
    next hfind =>
      rcases bind_eq_ok.mp hperform with ⟨u, hflush, hadd⟩
      rw [(flush_eq_ok.mp hflush).2] at hadd
      -- The evidence is looked for in a table that the new observation has left as it was.
      rcases addEvidence_cases hadd with ⟨e, he, hcases⟩
      rcases observationRow_ok hrow he with ⟨hsubject, hidentified⟩
      have hparent := (evidenceRow_ok he).2
      have hnew := not_mem_of_find? hfind
      rcases hcases with ⟨stored, hstored, -, rfl⟩ | ⟨hnone, rfl⟩
      · have hsame := RiEvidence.sameRecord_iff.mp (List.find?_some hstored)
        refine h.observation hsubject ⟨stored, mem_of_find?_eq_some hstored, ?_, ?_⟩ rfl hnew h
          (prefix_refl _)
        · rw [hsame, hparent]
        · rw [hsame]
          exact hidentified
      · have hgrown : addEvidence (fun _ => true) (.observation t.observations.length) t
            call.evidence = .ok { t with evidence := t.evidence ++ [e] } := by
          dsimp only at hnone
          simp [SnapshotStore.addEvidence, he, ok_bind, hnone, flush]
        exact h.observation hsubject
          ⟨e, mem_append_right _ mem_cons_self, hparent, hidentified⟩ rfl hnew
          (h.addEvidence hgrown) (prefix_append _ _)
  | edge call =>
    rcases bind_eq_ok.mp hperform with ⟨-, -, hperform⟩
    rcases bind_eq_ok.mp hperform with ⟨row, hrow, hperform⟩
    split at hperform
    next stored hfind =>
      rcases bind_eq_ok.mp hperform with ⟨-, -, hsupport⟩
      exact h.supportEdge (h.edgeRows.lt (mem_of_find?_eq_some hfind)) hsupport
    next hfind =>
      rcases bind_eq_ok.mp hperform with ⟨u, hflush, hsupport⟩
      rw [(flush_eq_ok.mp hflush).2] at hsupport
      refine (h.edge (edgeRow_ok hrow) (not_mem_of_find? hfind)).supportEdge ?_ hsupport
      rw [length_append, length_singleton]
      exact Nat.lt_succ_self _
  | assertion call =>
    rcases bind_eq_ok.mp hperform with ⟨-, -, hperform⟩
    rcases bind_eq_ok.mp hperform with ⟨row, hrow, hperform⟩
    split at hperform
    · cases hperform
      exact h
    next hfind =>
      rcases bind_eq_ok.mp hperform with ⟨u, hflush, hloop⟩
      rw [(flush_eq_ok.mp hflush).2] at hloop
      rcases assertionRow_ok hrow with ⟨hsubject, hvalue, derivedFrom, hsort, hidentified⟩
      have hdone := (derivation_loop hloop).2
      rcases derivation_rows hloop with ⟨more, rfl, hmore⟩
      refine h.assertion rfl (not_mem_of_find? hfind)
        ⟨hsubject, hvalue, call.derivedFrom, derivedFrom, hsort, fun d => ?_, hidentified⟩
        (fun d hd => ?_)
      · constructor
        · rintro ⟨reference, hreference, hd⟩
          rcases hdone reference hreference with ⟨r, hr, hmem⟩
          exact ⟨r, hmem, (derivationRow_ok hr).2, referenceOf_row hr hd⟩
        · rintro ⟨r, hmem, howner, rfl⟩
          rcases mem_append.mp hmem with hmem | hmem
          · -- The derivations that were there are of other rows.
            have hlt := h.owned r hmem
            rw [Owned, howner] at hlt
            exact absurd hlt (lt_irrefl _)
          · rcases hmore r hmem with ⟨reference, hreference, hr⟩
            rcases arrange_ok_iff.mp ⟨derivedFrom, hsort⟩ reference hreference with ⟨d, hd⟩
            exact ⟨reference, hreference, by rw [hd, referenceOf_row hr hd]⟩
      · rcases hmore d hd with ⟨reference, -, hr⟩
        exact derivationRow_ok hr
  | diagnostic call =>
    rcases bind_eq_ok.mp hperform with ⟨-, -, hperform⟩
    rcases bind_eq_ok.mp hperform with ⟨row, hrow, hflush⟩
    rw [(flush_eq_ok.mp hflush).2]
    rcases bind_eq_ok.mp hrow with ⟨path, hpath, hrow⟩
    rcases bind_eq_ok.mp hrow with ⟨-, -, hrow⟩
    rcases bind_eq_ok.mp hrow with ⟨details, hdetails, hrow⟩
    have hok : DiagnosticOk row := by
      cases hrow
      refine ⟨normalizeOptionalPath_some (raising_eq_ok.mp hpath),
        ⟨map_nfc_again _, map_nfc_again _⟩, ?_, normalizeIfAny_normal hdetails⟩
      cases call.span <;> rfl
    exact { h with
      diagnostics := forall_mem_append.mpr
        ⟨h.diagnostics, forall_mem_singleton.mpr hok⟩ }

/-- What the writers establish, of every snapshot that they have filled. -/
theorem wellFormed_reachable (h : (building constraints snapshot).Reachable t) :
    WellFormed snapshot t := by
  refine StepSystem.reachableBy_invariant ?_ ?_ h
  · rintro t rfl
    exact wellFormed_empty
  · intro t call t' hwell _ hstep
    exact wellFormed_perform hwell (step_eq_some.mp hstep)

/-- In any order of calls, with any arguments and whatever the tables accept, rows are only
    appended, and every row is well formed: no identity is given twice, and each is that of the
    contents. -/
theorem writers_keep {constraints : Tables → Bool} {calls more : List Call}
    (h : (building constraints snapshot).exec Tables.empty calls = some t)
    (h' : (building constraints snapshot).exec t more = some t') :
    t.Extends t' ∧ WellFormed snapshot t' := by
  have hreach : (building constraints snapshot).Reachable t' :=
    ⟨Tables.empty, rfl, (StepSystem.path_of_exec h).trans (StepSystem.path_of_exec h')⟩
  exact ⟨(exec_does h').1, wellFormed_reachable hreach⟩

end Invariant

section Exactness

variable [Unicode] [Hashing]

/-- A producer was declared. -/
def Declared (snapshot : RiSnapshot) (producer version : Str) : Prop :=
  producer ++ '@' :: version ∈ snapshot.producerVersionSet

/-- There is a node of this kind with this key. -/
def HasNode (t : Tables) (kind key : Str) : Prop :=
  ∃ n ∈ t.nodes, n.stableKey = key ∧ n.nodeKind = kind

/-- Everything that facts are derived from is there, and no fact is derived from itself. -/
def Grounded (facts : DerivationGraph.Facts) : Prop :=
  (∀ d ∈ facts.derivations, DerivationGraph.Present facts d) ∧
    ∀ f, ¬ Relation.TransGen (DerivationGraph.Derives facts) f f

/-- What is left to be checked of the rows that the writers have inserted. -/
structure Sealable (snapshot : RiSnapshot) (t : Tables) : Prop where
  notFatal : ∀ d ∈ t.diagnostics, d.severity ≠ "fatal".toList
  root : ∃ n, t.nodes.filter (fun n => decide (n.nodeKind = "repository".toList)) = [n]
  keys : ∀ n ∈ t.nodes, normalizeStableKey n.nodeKind n.stableKey = .ok n.stableKey
  paths : ∀ e ∈ t.evidence, driveLike e.path = false
  extractors : ∀ e ∈ t.evidence, Declared snapshot e.extractor e.extractorVersion
  observed : ∀ n ∈ t.nodes, n.truthClass = "observed".toList →
    ∃ e ∈ t.evidence, e.parent = .node n.id
  single : ∀ o ∈ t.observations, ∀ e ∈ t.evidence, ∀ e' ∈ t.evidence,
    e.parent = .observation o.id → e'.parent = .observation o.id → e = e'
  subjects : ∀ o ∈ t.observations, HasNode t o.subjectKind o.subjectKey
  endpoints : ∀ e ∈ t.edges,
    HasNode t e.subjectKind e.subjectKey ∧ HasNode t e.objectKind e.objectKey
  edgeEvidence : ∀ e ∈ t.edges, ∃ r ∈ t.evidence, r.parent = .edge e.id
  edgeSources : ∀ e ∈ t.edges, ∃ d ∈ t.derivations, d.owner = .edge e.id ∧ d.refKind = .observation
  edgeProducers : ∀ e ∈ t.edges, Declared snapshot e.producer e.producerVersion
  assertionSubjects : ∀ a ∈ t.assertions, HasNode t a.subjectKind a.subjectKey
  assertionSources : ∀ a ∈ t.assertions, ∃ d ∈ t.derivations, d.owner = .assertion a.id
  assertionProducers : ∀ a ∈ t.assertions, Declared snapshot a.producer a.producerVersion
  grounded : ∃ h : Constrained t, Grounded (graphFacts t h)
  diagnosticProducers : ∀ d ∈ t.diagnostics, d.producer ∈ snapshot.producerVersionSet

variable {snapshot : RiSnapshot} {t : Tables}

variable {parent : Parent} {e : RiEvidence} {key : Str} {o : RiObservation} {a : RiAssertion}

omit [Unicode] [Hashing] in
theorem evidenceOf_ne_nil : evidenceOf t parent ≠ [] ↔ ∃ e ∈ t.evidence, e.parent = parent := by
  rw [evidenceOf, ne_eq, filter_eq_nil_iff]
  simp [not_forall]

omit [Unicode] [Hashing] in
theorem requireProducer_eq_ok {producer version : Str} :
    requireProducer snapshot producer version = .ok () ↔ Declared snapshot producer version := by
  rw [requireProducer, ensure_eq_ok, elem_iff, Declared]

omit [Hashing] in
/-- A content that is normal passes. -/
theorem requireNormal_ok {content : Option (List (Str × Value))} {message : String}
    (h : ∀ fields, content = some fields → normalizeMapping fields = .ok fields) :
    requireNormal content message = .ok () := by
  cases content with
  | none => rfl
  | some fields =>
    have hnormal := h fields rfl
    have hvalue : Canonical.normalize (.obj fields) = .ok (.obj fields) :=
      normalize_mapping.mpr ⟨fields, hnormal, rfl⟩
    have heq : pyEqFields fields fields = true := pyEq_refl hvalue
    simp only [requireNormal, Option.getD_some, hnormal, raising, ok_bind, ensure_eq_ok]
    exact heq

omit [Hashing] in
theorem validateNode_eq_ok {n : RiNode} (h : NodeOk n) : validateNode n = .ok () ↔
    normalizeStableKey n.nodeKind n.stableKey = .ok n.stableKey := by
  rw [validateNode]
  cases normalizeStableKey n.nodeKind n.stableKey with
  | error e => exact iff_of_false (fun h => by cases h) (fun h => by cases h)
  | ok key =>
    rw [seq_eq_ok, ensure_eq_ok, Except.ok.injEq]
    exact ⟨fun hkey => hkey.1, fun hkey => ⟨hkey, requireNormal_ok h.properties⟩⟩

omit [Hashing] in
theorem validateStoredEvidence_eq_ok (h : EvidenceOk e) :
    validateStoredEvidence snapshot e = .ok () ↔
      driveLike e.path = false ∧ Declared snapshot e.extractor e.extractorVersion := by
  rcases h.path with ⟨⟨raw, hraw⟩, hne⟩
  have hlines : 1 ≤ e.logicalLineCount := by
    have hspan := h.span
    omega
  rw [validateStoredEvidence, seq_eq_ok, seq_eq_ok, ensure_eq_ok, ensure_eq_ok,
    normalizeRepoPath_again hraw]
  cases hdrive : driveLike e.path with
  | true =>
    rw [if_pos rfl]
    exact iff_of_false (fun h => by cases h.2.2) (fun h => by cases h.1)
  | false =>
    rw [if_neg Bool.false_ne_true]
    dsimp only
    rw [seq_eq_ok, seq_eq_ok, seq_eq_ok, seq_eq_ok, ensure_eq_ok, ensure_eq_ok, ensure_eq_ok,
      ensure_eq_ok, requireProducer_eq_ok]
    exact ⟨fun hall => ⟨rfl, hall.2.2.2.2.2.2⟩,
      fun hall => ⟨h.extractor, h.granularity, hne, rfl, hlines, h.span, hall.2⟩⟩

omit [Unicode] [Hashing] in
theorem nodeKindByKey_eq (hkeys : (t.nodes.map RiNode.stableKey).Nodup) {kind : Str} :
    nodeKindByKey t key = some kind ↔ HasNode t kind key := by
  rw [nodeKindByKey, Rows.lookup_map_reverse hkeys, Option.map_eq_some_iff]
  constructor
  · rintro ⟨n, hfind, hkind⟩
    rcases (Rows.find?_eq_some hkeys).mp hfind with ⟨hn, hkey⟩
    exact ⟨n, hn, hkey, hkind⟩
  · rintro ⟨n, hn, hkey, hkind⟩
    exact ⟨n, (Rows.find?_eq_some hkeys).mpr ⟨hn, hkey⟩, hkind⟩

/-- A path that is read again as itself gives the identity again. -/
theorem computeObservationId_again {i : ObservationIdentity}
    (hpath : normalizeRepoPath i.path = .ok i.path) {bytes : List UInt8}
    (h : canonicalJsonBytes i.document = .ok bytes) :
    computeObservationId i = .ok ("obs:".toList ++ sha256Prefixed bytes) := by
  rw [computeObservationId, hpath, ok_bind, h, ok_bind]

omit [Unicode] [Hashing] in
/-- The evidence of a row, when it is one record. -/
theorem evidenceOf_eq_singleton (hnodup : t.evidence.Nodup) (he : e ∈ t.evidence)
    (hparent : e.parent = parent) (hsingle : ∀ e' ∈ t.evidence, e'.parent = parent → e' = e) :
    evidenceOf t parent = [e] := by
  have hmem : e ∈ evidenceOf t parent := mem_filter.mpr ⟨he, decide_eq_true hparent⟩
  have hall : ∀ e' ∈ evidenceOf t parent, e' = e := fun e' he' =>
    hsingle e' (mem_filter.mp he').1 (of_decide_eq_true (mem_filter.mp he').2)
  have hrest : (evidenceOf t parent).Nodup := hnodup.filter _
  cases hlist : evidenceOf t parent with
  | nil => rw [hlist] at hmem; cases hmem
  | cons a l =>
    rw [hlist] at hall hrest
    have ha := hall a mem_cons_self
    cases l with
    | nil => rw [ha]
    | cons b l =>
      have hb := hall b (mem_cons_of_mem a mem_cons_self)
      rw [ha, hb] at hrest
      exact absurd mem_cons_self (nodup_cons.mp hrest).1

theorem validateObservation_single (h : validateObservation snapshot t o = .ok ()) :
    (∀ e ∈ t.evidence, ∀ e' ∈ t.evidence, e.parent = .observation o.id →
      e'.parent = .observation o.id → e = e') ∧
      nodeKindByKey t o.subjectKey = some o.subjectKind := by
  rw [validateObservation] at h
  split at h
  next e hlist =>
    have hmem : ∀ e' ∈ t.evidence, e'.parent = .observation o.id → e' = e := by
      intro e' he' hparent
      have hin : e' ∈ evidenceOf t (.observation o.id) :=
        mem_filter.mpr ⟨he', decide_eq_true hparent⟩
      rw [hlist] at hin
      exact mem_singleton.mp hin
    refine ⟨fun a ha b hb hpa hpb => (hmem a ha hpa).trans (hmem b hb hpb).symm, ?_⟩
    rw [seq_eq_ok, ensure_eq_ok] at h
    exact h.1
  · cases h

/-- An observation with one piece of evidence is identified by it. -/
theorem validateObservation_ok (hwell : WellFormed snapshot t) (ho : o ∈ t.observations)
    (hpaths : ∀ e ∈ t.evidence, driveLike e.path = false)
    (hsingle : ∀ e ∈ t.evidence, ∀ e' ∈ t.evidence, e.parent = .observation o.id →
      e'.parent = .observation o.id → e = e')
    (hsubject : nodeKindByKey t o.subjectKey = some o.subjectKind) :
    validateObservation snapshot t o = .ok () := by
  rcases hwell.observations o ho with ⟨e, he, hparent, bytes, hbytes, hid⟩
  -- The only record is the one that the observation was identified by.
  have hlist : evidenceOf t (.observation o.id) = [e] :=
    evidenceOf_eq_singleton hwell.evidenceRows he hparent
      (fun e' he' hp => hsingle e' he' e he hp hparent)
  have hpath : normalizeRepoPath e.path = .ok e.path := by
    rcases (hwell.evidence e he).path.1 with ⟨raw, hraw⟩
    rw [normalizeRepoPath_again hraw, if_neg (by rw [hpaths e he]; exact Bool.false_ne_true)]
  have hpath' : normalizeRepoPath (observationIdentity snapshot o e).path = .ok e.path := hpath
  have hrecomputed := computeObservationId_again hpath' hbytes
  rw [validateObservation, hlist]
  dsimp only
  rw [seq_eq_ok, ensure_eq_ok, hrecomputed, raising, ok_bind, ensure_eq_ok]
  exact ⟨hsubject, hid.symm⟩

theorem validateEdge_eq_ok (hwell : WellFormed snapshot t) {e : RiEdge} (he : e ∈ t.edges) :
    validateEdge snapshot t e = .ok () ↔
      (HasNode t e.subjectKind e.subjectKey ∧ HasNode t e.objectKind e.objectKey) ∧
      (∃ r ∈ t.evidence, r.parent = .edge e.id) ∧
      (∃ d ∈ t.derivations, d.owner = .edge e.id ∧ d.refKind = .observation) ∧
      Declared snapshot e.producer e.producerVersion := by
  have hderived : (derivationsOf t (.edge e.id)).any (fun d => decide (d.refKind = .observation)) ↔
      ∃ d ∈ t.derivations, d.owner = .edge e.id ∧ d.refKind = .observation := by
    simp [derivationsOf]
  rw [validateEdge, seq_eq_ok, seq_eq_ok, seq_eq_ok, seq_eq_ok, ensure_eq_ok, ensure_eq_ok,
    ensure_eq_ok, ensure_eq_ok, requireProducer_eq_ok, evidenceOf_ne_nil, hderived,
    nodeKindByKey_eq hwell.nodeKeys, nodeKindByKey_eq hwell.nodeKeys]
  have hid := (hwell.edges e he).identified
  tauto

/-- The references of an assertion are sorted as they were when it was written. -/
theorem derivationRefs_sorted (hwell : WellFormed snapshot t) (ha : a ∈ t.assertions) :
    ∃ derivedFrom,
      sortDerivedFrom (derivationRefs (derivationsOf t (.assertion a.id))) = .ok derivedFrom ∧
        computeAssertionId (assertionIdentity snapshot a derivedFrom) = .ok a.assertionId := by
  rcases (hwell.assertions a ha).identified with ⟨references, derivedFrom, hsort, hrows, hid⟩
  have hself : ∀ d ∈ t.derivations, prepareReference (referenceOf d).asMapping =
      .ok (referenceOf d) := fun d hd =>
    prepareReference_asMapping (hwell.derivations d hd).normal (hwell.derivations d hd).nonempty
  have hmem : ∀ d ∈ derivationsOf t (.assertion a.id),
      d ∈ t.derivations ∧ d.owner = .assertion a.id := fun d hd =>
    ⟨(mem_filter.mp hd).1, of_decide_eq_true (mem_filter.mp hd).2⟩
  have hall : ∀ r ∈ derivationRefs (derivationsOf t (.assertion a.id)),
      ∃ d, prepareReference r = .ok d := by
    intro r hr
    rcases mem_map.mp hr with ⟨d, hd, rfl⟩
    exact ⟨referenceOf d, hself d (hmem d hd).1⟩
  have hsorted : ∃ derivedFrom',
      sortDerivedFrom (derivationRefs (derivationsOf t (.assertion a.id))) = .ok derivedFrom' :=
    arrange_ok_iff.mpr hall
  rcases hsorted with ⟨derivedFrom', hsort'⟩
  -- The rows are the references that were given, in another order and each once.
  have hsame : derivedFrom = derivedFrom' := by
    refine (arrange_eq_iff hsort hsort').mpr (Set.ext (fun d => (hrows d).trans ?_))
    constructor
    · rintro ⟨row, hrow, howner, rfl⟩
      exact ⟨_, mem_map.mpr ⟨row, mem_filter.mpr ⟨hrow, decide_eq_true howner⟩, rfl⟩,
        hself row hrow⟩
    · rintro ⟨r, hr, hd⟩
      rcases mem_map.mp hr with ⟨row, hrow, rfl⟩
      rw [hself row (hmem row hrow).1] at hd
      exact ⟨row, (hmem row hrow).1, (hmem row hrow).2, Except.ok.inj hd⟩
  exact ⟨derivedFrom', hsort', by rw [← hsame]; exact hid⟩

theorem validateAssertion_eq_ok (hwell : WellFormed snapshot t) (ha : a ∈ t.assertions) :
    validateAssertion snapshot t a = .ok () ↔
      HasNode t a.subjectKind a.subjectKey ∧
      (∃ d ∈ t.derivations, d.owner = .assertion a.id) ∧
      Declared snapshot a.producer a.producerVersion := by
  rcases derivationRefs_sorted hwell ha with ⟨derivedFrom, hsort, hid⟩
  have hsource : derivationRefs (derivationsOf t (.assertion a.id)) ≠ [] ↔
      ∃ d ∈ t.derivations, d.owner = .assertion a.id := by
    simp [derivationRefs, derivationsOf, not_forall]
  have hvalue : requireNormal (some a.value) "assertion value is not canonically normalized" =
      .ok () := by
    refine requireNormal_ok (fun fields hfields => ?_)
    cases hfields
    exact (hwell.assertions a ha).value
  rw [validateAssertion, seq_eq_ok]
  dsimp only
  rw [seq_eq_ok, ensure_eq_ok, ensure_eq_ok, hsource, hsort, raising, ok_bind, hid, raising,
    ok_bind, seq_eq_ok, seq_eq_ok, ensure_eq_ok, hvalue, requireProducer_eq_ok,
    nodeKindByKey_eq hwell.nodeKeys]
  tauto

omit [Hashing] in
theorem validateDiagnostic_eq_ok {d : RiDiagnostic} (h : DiagnosticOk d) :
    validateDiagnostic snapshot d = .ok () ↔ d.producer ∈ snapshot.producerVersionSet := by
  rw [validateDiagnostic, seq_eq_ok, seq_eq_ok, ensure_eq_ok, ensure_eq_ok, elem_iff,
    requireNormal_ok h.details]
  exact ⟨fun hall => hall.1, fun hall => ⟨hall, h.span, rfl⟩⟩

omit [Unicode] [Hashing] in
theorem validateGraph_eq_ok : validateGraph t = .ok () ↔
    ∃ h : Constrained t, Grounded (graphFacts t h) := by
  rw [validateGraph]
  by_cases h : Constrained t
  swap
  · rw [dif_neg h]
    exact iff_of_false (fun he => by cases he) (fun he => h he.1)
  rw [dif_pos h, DerivationGraph.validateDerivationGraph, exists_prop_of_true h]
  rcases DerivationGraph.outgoing_spec (graphFacts t h) with ⟨hall, hok⟩ | ⟨d, hd, habsent, herror⟩
  swap
  · rw [herror]
    exact iff_of_false (fun he => by cases he) (fun he => habsent (he.1 d hd))
  have hdepth : (DerivationGraph.graph (graphFacts t h)).length ≤
      t.edges.length + t.assertions.length := by
    have hlength := DerivationGraph.length_graph (graphFacts t h)
    simp only [graphFacts, length_map] at hlength ⊢
    exact hlength
  rw [hok, ok_bind]
  rcases DepthFirst.search_spec hdepth with ⟨c, hsearch, hacyclic⟩ | ⟨hsearch, hcycle⟩
  · rw [hsearch]
    refine iff_of_true rfl ⟨hall, fun f hf => ?_⟩
    rcases (DerivationGraph.cycle_iff (graphFacts t h)).mpr ⟨f, hf⟩ with ⟨a, ha⟩
    exact hacyclic a ha
  · rw [hsearch]
    rcases (DerivationGraph.cycle_iff (graphFacts t h)).mp hcycle with ⟨f, hf⟩
    exact iff_of_false (fun he => by cases he) (fun he => he.2 f hf)

omit [Hashing] in
/-- The key of the repository. -/
theorem root_key {raw : Str} (h : normalizeStableKey "repository".toList raw = .ok key) :
    key = "repo:root".toList := by
  have hkind : nfc "repository".toList = "repository".toList := nfc_ascii _ (by decide)
  rw [normalizeStableKey, hkind] at h
  split at h
  · cases h
  · split at h
    · cases h
    · rw [normalizeKindKey, if_pos rfl] at h
      split at h
      · cases h
      next hroot => rw [← Except.ok.inj h, not_not.mp hroot]

omit [Hashing] in
theorem root_iff (hnodes : ∀ n ∈ t.nodes, NodeOk n) :
    (t.nodes.filter (fun n => decide (n.nodeKind = "repository".toList))).map RiNode.stableKey =
        ["repo:root".toList] ↔
      ∃ n, t.nodes.filter (fun n => decide (n.nodeKind = "repository".toList)) = [n] := by
  rw [map_eq_singleton_iff]
  constructor
  · exact fun ⟨n, hlist, _⟩ => ⟨n, hlist⟩
  · rintro ⟨n, hlist⟩
    have hmem : n ∈ t.nodes.filter (fun n => decide (n.nodeKind = "repository".toList)) := by
      rw [hlist]
      exact mem_singleton.mpr rfl
    rcases mem_filter.mp hmem with ⟨hn, hkind⟩
    rcases (hnodes n hn).key with ⟨raw, hraw⟩
    rw [of_decide_eq_true hkind] at hraw
    exact ⟨n, hlist, root_key hraw⟩

omit [Hashing] in
theorem normalizeProducerVersionSet_idem (producers : List Str) :
    normalizeProducerVersionSet (normalizeProducerVersionSet producers) =
      normalizeProducerVersionSet producers := by
  refine producers_eq_iff.mpr (Set.ext (fun p => ?_))
  constructor
  · rintro ⟨q, hq, rfl⟩
    rcases mem_normalizeProducerVersionSet.mp hq with ⟨r, hr, rfl⟩
    exact ⟨r, hr, nfc_nfc r⟩
  · rintro ⟨q, hq, rfl⟩
    exact ⟨nfc q, mem_normalizeProducerVersionSet.mpr ⟨q, hq, rfl⟩, (nfc_nfc q).symm⟩

/-- The columns of a snapshot that was begun. -/
structure Begun (snapshot : RiSnapshot) : Prop where
  producers : snapshot.producerVersionSet = normalizeProducerVersionSet snapshot.producerVersionSet
  producersHash : producerSetHash (normalizeProducerVersionSet snapshot.producerVersionSet) =
    .ok snapshot.producerSetHash
  configHash : isContentHash snapshot.configHash = true
  revision : validateRevision {
    kind := snapshot.revisionKind
    value := snapshot.revisionValue
    ref := snapshot.revisionRef } = .ok ()

theorem begin_ok {snapshotId : Str} {repository : Option RepositoryRecord} {revision : Revision}
    {producerVersionSet : List Str} {schemaVersion configHash : Str}
    (h : begin snapshotId repository revision producerVersionSet schemaVersion configHash =
      .ok snapshot) : Begun snapshot := by
  rcases bind_eq_ok.mp h with ⟨_, hrevision, h⟩
  rcases bind_eq_ok.mp h with ⟨-, -, h⟩
  rcases bind_eq_ok.mp h with ⟨_, hconfig, h⟩
  rcases bind_eq_ok.mp h with ⟨hash, hproducers, h⟩
  rcases bind_eq_ok.mp hrevision with ⟨_, hrevision, -⟩
  cases h
  exact ⟨(normalizeProducerVersionSet_idem producerVersionSet).symm,
    by rw [normalizeProducerVersionSet_idem]; exact raising_eq_ok.mp hproducers,
    ensure_eq_ok.mp hconfig, hrevision⟩

/-- The validation of what the writers have written to a snapshot that was begun. -/
theorem validate_eq_ok (hbegun : Begun snapshot) (h : WellFormed snapshot t) :
    validate snapshot t = .ok () ↔ Sealable snapshot t := by
  rw [validate, seq_eq_ok, hbegun.producersHash, raising, ok_bind, seq_eq_ok, seq_eq_ok, seq_eq_ok,
    seq_eq_ok, seq_eq_ok, seq_eq_ok, seq_eq_ok, seq_eq_ok, seq_eq_ok, seq_eq_ok, seq_eq_ok,
    seq_eq_ok, ensure_eq_ok, ensure_eq_ok, ensure_eq_ok, ensure_eq_ok, ensure_eq_ok,
    root_iff h.nodes, each_eq_ok, each_eq_ok, each_eq_ok, each_eq_ok, each_eq_ok, each_eq_ok,
    each_eq_ok, validateGraph_eq_ok]
  constructor
  -- each check that passes says one thing of the rows it reads
  · rintro ⟨-, -, -, -, hfatal, hroot, hnodes, hevidence, hobserved, hobservations, hedges,
      hassertions, hgraph, hdiagnostics⟩
    have hstored := fun e he => (validateStoredEvidence_eq_ok (h.evidence e he)).mp (hevidence e he)
    have hsingle := fun o ho => validateObservation_single (hobservations o ho)
    have hedge := fun e he => (validateEdge_eq_ok h he).mp (hedges e he)
    have hassertion := fun a ha => (validateAssertion_eq_ok h ha).mp (hassertions a ha)
    exact {
      notFatal := hfatal
      root := hroot
      keys := fun n hn => (validateNode_eq_ok (h.nodes n hn)).mp (hnodes n hn)
      paths := fun e he => (hstored e he).1
      extractors := fun e he => (hstored e he).2
      observed := fun n hn htruth =>
        evidenceOf_ne_nil.mp (ensure_eq_ok.mp (hobserved n hn) htruth)
      single := fun o ho => (hsingle o ho).1
      subjects := fun o ho => (nodeKindByKey_eq h.nodeKeys).mp (hsingle o ho).2
      endpoints := fun e he => (hedge e he).1
      edgeEvidence := fun e he => (hedge e he).2.1
      edgeSources := fun e he => (hedge e he).2.2.1
      edgeProducers := fun e he => (hedge e he).2.2.2
      assertionSubjects := fun a ha => (hassertion a ha).1
      assertionSources := fun a ha => (hassertion a ha).2.1
      assertionProducers := fun a ha => (hassertion a ha).2.2
      grounded := hgraph
      diagnosticProducers := fun d hd =>
        (validateDiagnostic_eq_ok (h.diagnostics d hd)).mp (hdiagnostics d hd) }
  -- what a snapshot was begun with passes the first checks, the rest is checked row by row
  · intro hs
    refine ⟨hbegun.producers, rfl, hbegun.configHash, hbegun.revision, hs.notFatal, hs.root,
      ?_, ?_, ?_, ?_, ?_, ?_, hs.grounded, ?_⟩
    · exact fun n hn => (validateNode_eq_ok (h.nodes n hn)).mpr (hs.keys n hn)
    · exact fun e he => (validateStoredEvidence_eq_ok (h.evidence e he)).mpr
        ⟨hs.paths e he, hs.extractors e he⟩
    · exact fun n hn => ensure_eq_ok.mpr
        (fun htruth => evidenceOf_ne_nil.mpr (hs.observed n hn htruth))
    · exact fun o ho => validateObservation_ok h ho hs.paths (hs.single o ho)
        ((nodeKindByKey_eq h.nodeKeys).mpr (hs.subjects o ho))
    · exact fun e he => (validateEdge_eq_ok h he).mpr
        ⟨hs.endpoints e he, hs.edgeEvidence e he, hs.edgeSources e he, hs.edgeProducers e he⟩
    · exact fun a ha => (validateAssertion_eq_ok h ha).mpr
        ⟨hs.assertionSubjects a ha, hs.assertionSources a ha, hs.assertionProducers a ha⟩
    · exact fun d hd => (validateDiagnostic_eq_ok (h.diagnostics d hd)).mpr
        (hs.diagnosticProducers d hd)

/-- A snapshot that was begun and that the writers alone have filled, with any arguments and in any
    order, is refused for none but the reasons of `Sealable`, as long as Python can follow its
    chains of derivations. -/
theorem validate_exact {constraints : Tables → Bool} {snapshotId : Str}
    {repository : Option RepositoryRecord} {revision : Revision} {producerVersionSet : List Str}
    {schemaVersion configHash : Str}
    (hbegin : begin snapshotId repository revision producerVersionSet schemaVersion configHash =
      .ok snapshot) (hreach : (building constraints snapshot).Reachable t) :
    validate snapshot t = .ok () ↔ Sealable snapshot t :=
  validate_eq_ok (begin_ok hbegin) (wellFormed_reachable hreach)

end Exactness

section Samples

local instance validationText : Unicode := asciiText

local instance validationHash : Hashing := sha256

theorem begin_sample : begin "snap_1".toList
    (some { revisionKind := some "git".toList, revisionValue := some (List.replicate 40 'a') })
    { kind := "git".toList, value := List.replicate 40 'a', ref := none } ["inventory@1".toList]
    "ri.v1".toList ("sha256:".toList ++ List.replicate 64 'b') = .ok sampleSnapshot := by
  rfl

/-- An import in the file. -/
def sampleObservation : ObservationCall where
  observedKind := "import".toList
  subjectKind := "file".toList
  subjectKey := "file:src/a.py".toList
  evidence := sampleRecord "src/a.py"
  referentText := some "b".toList
  ordinal := 0

def referenceTo (kind identityField : String) (identity : Option Str) : Reference :=
  [("kind".toList, kind.toList), (identityField.toList, identity.getD [])]

/-- An edge that is derived from the import. -/
def sampleEdge : EdgeCall where
  subjectKind := "file".toList
  subjectKey := "file:src/a.py".toList
  predicate := "imports".toList
  objectKind := "repository".toList
  objectKey := "repo:root".toList
  producer := "inventory".toList
  producerVersion := "1".toList
  evidence := [sampleRecord "src/a.py"]
  derivedFrom := [referenceTo "observation" "observation_id"
    ((observationRow sampleSnapshot sampleObservation).toOption.map RiObservation.observationId)]
  truthClass := "derived".toList

/-- An assertion that is derived from the edge. -/
def sampleAssertion : AssertionCall where
  subjectKind := "file".toList
  subjectKey := "file:src/a.py".toList
  predicate := "has_role".toList
  value := [("role".toList, .str "leaf".toList)]
  producer := "inventory".toList
  producerVersion := "1".toList
  derivedFrom := [referenceTo "edge" "edge_id"
    ((edgeRow sampleEdge).toOption.map RiEdge.edgeId)]
  truthClass := "derived".toList
  setArrayKeys := []
  orderedArrayKeys := []

def sampleFacts : List Call :=
  [.observation sampleObservation, .edge sampleEdge, .assertion sampleAssertion]

/-- The repository, a file and what was found in it. -/
def fullTables : Tables :=
  ((building (fun _ => true) sampleSnapshot).exec sampleTables sampleFacts).getD Tables.empty

theorem exec_facts :
    (building (fun _ => true) sampleSnapshot).exec sampleTables sampleFacts = some fullTables := by
  have hreturns : ((building (fun _ => true) sampleSnapshot).exec sampleTables
      sampleFacts).isSome = true := by
    decide +kernel
  rcases Option.isSome_iff_exists.mp hreturns with ⟨t, ht⟩
  rw [fullTables, ht]
  rfl

/-- The facts are appended to the nodes. -/
theorem writers_keep_sample :
    sampleTables.Extends fullTables ∧ WellFormed sampleSnapshot fullTables :=
  writers_keep exec_sample exec_facts

/-- They are validated, and so there is nothing that they could be refused for. -/
theorem validate_exact_sample :
    validate sampleSnapshot fullTables = .ok () ∧ Sealable sampleSnapshot fullTables := by
  have hpath := (StepSystem.path_of_exec exec_sample).trans (StepSystem.path_of_exec exec_facts)
  have hvalid : validate sampleSnapshot fullTables = .ok () := by
    decide +kernel
  exact ⟨hvalid, (validate_exact begin_sample ⟨Tables.empty, rfl, hpath⟩).mp hvalid⟩

end Samples

end SnapshotStore

end Partha
