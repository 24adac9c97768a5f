import Partha.Canonical.Consolidation
import Partha.Library.Sha256

/-!
# The Canonical Graph Hash

The hash of a graph is that of its canonical document, in which each kind of facts is an array.

An array has the distinct canonical records of its facts, in the order of their ranks, so that it is
told by the set of these records. What a graph says is given by such sets, with evidence and
derivations as sets too, and graphs that have a hash have the same one exactly when they say the
same, if the hash function has no collisions.

## Main definitions

* `computeCanonicalGraphHash`: `compute_canonical_graph_hash`.
* `Content`, `contentOf`: What a graph says.
* `ArraysOf`: The arrays of the document of a graph.

## Theorems

* `computeCanonicalGraphHash_eq_ok`: When a graph has a hash, and which one.
* `edgeContents_eq`: What the edges of the document say.
* `computeCanonicalGraphHash_eq_iff`: The hash identifies what a graph says.
-/

namespace Partha

namespace Canonical

open Checked List

section Definitions

/-- `hashlib.sha256(data).hexdigest()`. -/
class Hashing where
  sha256Hex : List UInt8 → Str

export Hashing (sha256Hex)

/-- The hash itself. -/
@[reducible]
def sha256 : Hashing :=
  { sha256Hex := fun data => Sha256.hex (data.map UInt8.toNat) }

/-- A hash without collisions that agrees with the real one on some bytes. -/
@[reducible]
def collisionFree (bytes : List UInt8) : Hashing :=
  { sha256Hex := fun data =>
      if data = bytes then Sha256.hex (data.map UInt8.toNat)
      else List.replicate 65 'x' ++ data.map (fun b => Char.ofNat b.toNat) }

variable [Unicode] [Hashing]

/-- `sha256_prefixed`. -/
def sha256Prefixed (data : List UInt8) : Str :=
  "sha256:".toList ++ sha256Hex data

/-- `normalize_producer_version_set`. -/
def normalizeProducerVersionSet (producers : List Str) : List Str :=
  Ordering.ordered (fun _ => ()) JsonText.utf8Key (producers.map nfc)

/-- `producer_set_hash`. -/
def producerSetHash (producers : List Str) : Except CanonicalError Str := do
  let bytes ← canonicalJsonBytes (.arr ((normalizeProducerVersionSet producers).map .str))
  .ok (sha256Prefixed bytes)

/-- The arguments of `compute_canonical_graph_hash`. -/
structure Graph where
  revisionKind : Str
  revisionValue : Str
  producerVersionSet : List Str
  configHash : Str
  nodes : List Node
  edges : List Edge
  assertions : List Assertion
  observations : List Observation
  diagnostics : List Diagnostic
  schemaVersion : Str

def nodeRank (r : NodeRecord (List EvidenceRecord)) : Str :=
  r.stableKey

def edgeRank (r : EdgeRow) : Str ×ₗ Str ×ₗ Str :=
  toLex (r.subjectKey, toLex (r.predicate, r.objectKey))

def assertionRank (r : AssertionRecord (List DerivedFrom)) : Str ×ₗ Str ×ₗ Str :=
  toLex (r.subjectKey, toLex (r.predicate, r.assertionId))

def observationRank (r : ObservationRecord) : Str :=
  r.observationId

def diagnosticRank (r : DiagnosticRecord) :
    Str ×ₗ Str ×ₗ Str ×ₗ Str ×ₗ Int ×ₗ Int ×ₗ Str ×ₗ Str ×ₗ Str ×ₗ Str ×ₗ Str :=
  toLex (r.code, toLex (r.category, toLex (r.severity, toLex (r.path.getD [],
    toLex ((r.span.map Prod.fst).getD 0, toLex ((r.span.map Prod.snd).getD 0,
      toLex (r.producer, toLex (r.subject.getD [], toLex (r.object.getD [],
        toLex (r.message, text (.obj r.details)))))))))))

/-- The arrays of the canonical document. -/
structure Arrays where
  nodes : List (NodeRecord (List EvidenceRecord))
  edges : List EdgeRow
  assertions : List (AssertionRecord (List DerivedFrom))
  observations : List ObservationRecord
  diagnostics : List DiagnosticRecord

def canonicalArrays (g : Graph) : Except CanonicalError Arrays := do
  let nodes ← collect (canonicalNodeRecord g.schemaVersion) g.nodes
  let nodes ← orderRecords nodeRank nodes
  let edges ← consolidateEdges g.schemaVersion g.edges
  let edges ← orderRecords edgeRank edges
  let assertions ← collect (canonicalAssertionRecord g.schemaVersion) g.assertions
  let assertions ← orderRecords assertionRank assertions
  let observations ← collect canonicalObservationRecord g.observations
  let observations ← orderRecords observationRank observations
  let diagnostics ← collect canonicalDiagnosticRecord g.diagnostics
  let diagnostics ← orderRecords diagnosticRank diagnostics
  .ok {
    nodes := nodes
    edges := edges
    assertions := assertions
    observations := observations
    diagnostics := diagnostics }

/-- The canonical document. -/
def document (g : Graph) (a : Arrays) : Value :=
  .obj [("assertions".toList, arrayOf a.assertions), ("config_hash".toList, .str g.configHash),
    ("diagnostics".toList, arrayOf a.diagnostics), ("edges".toList, arrayOf a.edges),
    ("nodes".toList, arrayOf a.nodes), ("observations".toList, arrayOf a.observations),
    ("producer_version_set".toList,
      .arr ((normalizeProducerVersionSet g.producerVersionSet).map .str)),
    ("revision".toList, .obj [("kind".toList, .str g.revisionKind),
      ("value".toList, .str g.revisionValue)]),
    ("schema_version".toList, .str g.schemaVersion)]

/-- `compute_canonical_graph_hash`. -/
def computeCanonicalGraphHash (g : Graph) : Except CanonicalError Str := do
  let arrays ← canonicalArrays g
  let bytes ← canonicalJsonBytes (document g arrays)
  .ok (sha256Prefixed bytes)

end Definitions

section Collisions

theorem byteChar_injective : Function.Injective (fun b : UInt8 => Char.ofNat b.toNat) := by
  intro b c h
  have hvalid : ∀ b : UInt8, (Char.ofNat b.toNat).toNat = b.toNat := by
    intro b
    have hlt := b.toNat_lt
    have hchar : b.toNat.isValidChar := .inl (by omega)
    rw [Char.ofNat, dif_pos hchar]
    rfl
  refine UInt8.toNat_inj.mp ?_
  rw [← hvalid b, ← hvalid c]
  exact congrArg Char.toNat h

theorem collisionFree_injective (bytes : List UInt8) :
    Function.Injective (collisionFree bytes).sha256Hex := by
  -- The real digests have 64 characters, the others have more.
  have hlength : ∀ data data' : List UInt8, Sha256.hex (data.map UInt8.toNat) ≠
      List.replicate 65 'x' ++ data'.map (fun b => Char.ofNat b.toNat) := by
    intro data data' h
    have hlen := congrArg List.length h
    rw [Sha256.length_hex, length_append, length_replicate] at hlen
    omega
  intro data data' h
  change (if data = bytes then _ else _) = (if data' = bytes then _ else _) at h
  by_cases hdata : data = bytes
  · by_cases hdata' : data' = bytes
    · rw [hdata, hdata']
    · rw [if_pos hdata, if_neg hdata'] at h
      exact absurd h (hlength data data')
  · by_cases hdata' : data' = bytes
    · rw [if_neg hdata, if_pos hdata'] at h
      exact absurd h.symm (hlength data' data)
    · rw [if_neg hdata, if_neg hdata'] at h
      exact map_injective_iff.mpr byteChar_injective (append_cancel_left h)

end Collisions

section Content

/-- What a graph says, with sets where the order and the multiplicity of facts
    do not matter. -/
structure Content where
  schemaVersion : Str
  revisionKind : Str
  revisionValue : Str
  configHash : Str
  producers : Set Str
  nodes : Set (NodeRecord (Set EvidenceRecord))
  edges : Set (EdgeRecord (Set EvidenceRecord) (Set DerivedFrom))
  assertions : Set (AssertionRecord (Set DerivedFrom))
  observations : Set ObservationRecord
  diagnostics : Set DiagnosticRecord

def Edge.triple (e : Edge) : Str × Str × Str :=
  (e.subjectKey, e.predicate, e.objectKey)

variable [Unicode]

/-- What a node says. -/
def nodeContent (schemaVersion : Str) (node : Node) :
    Except CanonicalError (NodeRecord (Set EvidenceRecord)) := do
  let properties ← normalizeOptional (ifAny node.properties)
  .ok {
    nodeKind := nfc node.nodeKind
    stableKey := nfc node.stableKey
    truthClass := nfc node.truthClass
    schemaVersion := nfc schemaVersion
    name := node.name.map nfc
    language := node.language.map nfc
    properties := properties
    evidence := results prepareEvidence node.evidence }

/-- What an edge says, with the evidence and the derivations of its triple. -/
def edgeContent (schemaVersion : Str) (edges : List Edge) (edge : Edge) :
    EdgeRecord (Set EvidenceRecord) (Set DerivedFrom) where
  edgeId := nfc edge.edgeId
  subjectKind := nfc edge.subjectKind
  subjectKey := nfc edge.subjectKey
  predicate := nfc edge.predicate
  objectKind := nfc edge.objectKind
  objectKey := nfc edge.objectKey
  truthClass := nfc edge.truthClass
  producer := nfc edge.producer
  producerVersion := nfc edge.producerVersion
  schemaVersion := nfc schemaVersion
  evidence := {x | ∃ q ∈ edges, q.triple = edge.triple ∧ x ∈ results prepareEvidence q.evidence}
  derivedFrom :=
    {d | ∃ q ∈ edges, q.triple = edge.triple ∧ d ∈ results prepareReference q.derivedFrom}

/-- What the edges say, of which the first of a triple speaks for the others. -/
def edgeContents (schemaVersion : Str) (edges : List Edge) :
    Set (EdgeRecord (Set EvidenceRecord) (Set DerivedFrom)) :=
  {c | ∃ e ∈ Ordering.distinct Edge.triple [] edges, c = edgeContent schemaVersion edges e}

/-- What an assertion says. -/
def assertionContent (schemaVersion : Str) (assertion : Assertion) :
    Except CanonicalError (AssertionRecord (Set DerivedFrom)) := do
  let value ← normalizeMapping assertion.value
  .ok {
    assertionId := nfc assertion.assertionId
    subjectKind := nfc assertion.subjectKind
    subjectKey := nfc assertion.subjectKey
    predicate := nfc assertion.predicate
    value := value
    truthClass := nfc assertion.truthClass
    producer := nfc assertion.producer
    producerVersion := nfc assertion.producerVersion
    schemaVersion := nfc schemaVersion
    derivedFrom := results prepareReference assertion.derivedFrom }

/-- An observation and a diagnostic hold no lists, and say what their record says. -/
def observationContent (observation : Observation) : Except CanonicalError ObservationRecord :=
  canonicalObservationRecord observation >>= normalized

def diagnosticContent (diagnostic : Diagnostic) : Except CanonicalError DiagnosticRecord :=
  canonicalDiagnosticRecord diagnostic >>= normalized

/-- What a graph says. -/
def contentOf (g : Graph) : Content where
  schemaVersion := nfc g.schemaVersion
  revisionKind := nfc g.revisionKind
  revisionValue := nfc g.revisionValue
  configHash := nfc g.configHash
  producers := {p | ∃ q ∈ g.producerVersionSet, p = nfc q}
  nodes := results (nodeContent g.schemaVersion) g.nodes
  edges := edgeContents g.schemaVersion g.edges
  assertions := results (assertionContent g.schemaVersion) g.assertions
  observations := results observationContent g.observations
  diagnostics := results diagnosticContent g.diagnostics

end Content

section Records

/-- The same record, over sets. -/
def NodeRecord.overSets (r : NodeRecord (List EvidenceRecord)) :
    NodeRecord (Set EvidenceRecord) where
  nodeKind := r.nodeKind
  stableKey := r.stableKey
  truthClass := r.truthClass
  schemaVersion := r.schemaVersion
  name := r.name
  language := r.language
  properties := r.properties
  evidence := {x | x ∈ r.evidence}

def EdgeRecord.overSets (r : EdgeRow) : EdgeRecord (Set EvidenceRecord) (Set DerivedFrom) where
  edgeId := r.edgeId
  subjectKind := r.subjectKind
  subjectKey := r.subjectKey
  predicate := r.predicate
  objectKind := r.objectKind
  objectKey := r.objectKey
  truthClass := r.truthClass
  producer := r.producer
  producerVersion := r.producerVersion
  schemaVersion := r.schemaVersion
  evidence := {x | x ∈ r.evidence}
  derivedFrom := {d | d ∈ r.derivedFrom}

def AssertionRecord.overSets (r : AssertionRecord (List DerivedFrom)) :
    AssertionRecord (Set DerivedFrom) where
  assertionId := r.assertionId
  subjectKind := r.subjectKind
  subjectKey := r.subjectKey
  predicate := r.predicate
  value := r.value
  truthClass := r.truthClass
  producer := r.producer
  producerVersion := r.producerVersion
  schemaVersion := r.schemaVersion
  derivedFrom := {d | d ∈ r.derivedFrom}

/-- Lists in canonical order are the same if they have the same elements. -/
theorem orderedEvidence_ext {l l' : List EvidenceRecord} (h : orderedEvidence l = l)
    (h' : orderedEvidence l' = l') (hmem : {x | x ∈ l} = {x | x ∈ l'}) : l = l' := by
  rw [← h, ← h']
  exact orderedEvidence_eq_iff.mpr (Set.ext_iff.mp hmem)

theorem orderedDerivations_ext {l l' : List DerivedFrom} (h : orderedDerivations l = l)
    (h' : orderedDerivations l' = l') (hmem : {d | d ∈ l} = {d | d ∈ l'}) : l = l' := by
  rw [← h, ← h']
  exact orderedDerivations_eq_iff.mpr (Set.ext_iff.mp hmem)

theorem NodeRecord.overSets_inj {r r' : NodeRecord (List EvidenceRecord)}
    (h : orderedEvidence r.evidence = r.evidence) (h' : orderedEvidence r'.evidence = r'.evidence)
    (he : r.overSets = r'.overSets) : r = r' := by
  rcases r
  rcases r'
  simp only [overSets, NodeRecord.mk.injEq] at he ⊢
  refine ⟨he.1, he.2.1, he.2.2.1, he.2.2.2.1, he.2.2.2.2.1, he.2.2.2.2.2.1, he.2.2.2.2.2.2.1, ?_⟩
  exact orderedEvidence_ext h h' he.2.2.2.2.2.2.2

theorem AssertionRecord.overSets_inj {r r' : AssertionRecord (List DerivedFrom)}
    (h : orderedDerivations r.derivedFrom = r.derivedFrom)
    (h' : orderedDerivations r'.derivedFrom = r'.derivedFrom) (he : r.overSets = r'.overSets) :
    r = r' := by
  rcases r
  rcases r'
  simp only [overSets, AssertionRecord.mk.injEq] at he ⊢
  refine ⟨he.1, he.2.1, he.2.2.1, he.2.2.2.1, he.2.2.2.2.1, he.2.2.2.2.2.1, he.2.2.2.2.2.2.1,
    he.2.2.2.2.2.2.2.1, he.2.2.2.2.2.2.2.2.1, ?_⟩
  exact orderedDerivations_ext h h' he.2.2.2.2.2.2.2.2.2

theorem EdgeRecord.overSets_inj {r r' : EdgeRow} (h : orderedEvidence r.evidence = r.evidence)
    (hd : orderedDerivations r.derivedFrom = r.derivedFrom)
    (h' : orderedEvidence r'.evidence = r'.evidence)
    (hd' : orderedDerivations r'.derivedFrom = r'.derivedFrom) (he : r.overSets = r'.overSets) :
    r = r' := by
  rcases r
  rcases r'
  simp only [overSets, EdgeRecord.mk.injEq] at he ⊢
  refine ⟨he.1, he.2.1, he.2.2.1, he.2.2.2.1, he.2.2.2.2.1, he.2.2.2.2.2.1, he.2.2.2.2.2.2.1,
    he.2.2.2.2.2.2.2.1, he.2.2.2.2.2.2.2.2.1, he.2.2.2.2.2.2.2.2.2.1, ?_, ?_⟩
  · exact orderedEvidence_ext h h' he.2.2.2.2.2.2.2.2.2.2.1
  · exact orderedDerivations_ext hd hd' he.2.2.2.2.2.2.2.2.2.2.2

/-- Lists give the same results exactly when they give the same contents, if
    the content of a result determines it. -/
theorem results_eq_iff {α β γ : Type} {f f' : α → Except CanonicalError β}
    {g g' : α → Except CanonicalError γ} {φ : β → γ} {canonical : β → Prop} {l l' : List α}
    (hf : ∀ a b, f a = .ok b → g a = .ok (φ b) ∧ canonical b)
    (hf' : ∀ a b, f' a = .ok b → g' a = .ok (φ b) ∧ canonical b)
    (hinj : ∀ b b', canonical b → canonical b' → φ b = φ b' → b = b')
    (hok : ∀ a ∈ l, ∃ b, f a = .ok b) (hok' : ∀ a ∈ l', ∃ b, f' a = .ok b) :
    results f l = results f' l' ↔ results g l = results g' l' := by
  have himage : ∀ {f : α → Except CanonicalError β} {g : α → Except CanonicalError γ} {l : List α},
      (∀ a b, f a = .ok b → g a = .ok (φ b) ∧ canonical b) → (∀ a ∈ l, ∃ b, f a = .ok b) →
      results g l = φ '' results f l := by
    intro f g l hf hok
    ext c
    constructor
    · rintro ⟨a, ha, hc⟩
      rcases hok a ha with ⟨b, hb⟩
      have hcb := (hf a b hb).1.symm.trans hc
      exact ⟨b, ⟨a, ha, hb⟩, Except.ok.inj hcb⟩
    · rintro ⟨b, ⟨a, ha, hb⟩, rfl⟩
      exact ⟨a, ha, (hf a b hb).1⟩
  rw [himage hf hok, himage hf' hok']
  constructor
  · intro h
    rw [h]
  · intro h
    have hsubset : ∀ {s t : Set β}, (∀ b ∈ s, canonical b) → (∀ b ∈ t, canonical b) →
        φ '' s = φ '' t → s ⊆ t := by
      intro s t hs ht hst b hb
      have hmem : φ b ∈ φ '' t := by
        rw [← hst]
        exact ⟨b, hb, rfl⟩
      rcases hmem with ⟨b', hb', he⟩
      rw [← hinj b' b (ht b' hb') (hs b hb) he]
      exact hb'
    have hc : ∀ b ∈ results f l, canonical b := by
      rintro b ⟨a, _, hb⟩
      exact (hf a b hb).2
    have hc' : ∀ b ∈ results f' l', canonical b := by
      rintro b ⟨a, _, hb⟩
      exact (hf' a b hb).2
    exact Set.Subset.antisymm (hsubset hc hc' h) (hsubset hc' hc h.symm)

end Records

section Arrays

variable [Unicode]

/-- A node on its way into the document. -/
def nodeOf (schemaVersion : Str) (node : Node) :
    Except CanonicalError (NodeRecord (List EvidenceRecord)) :=
  canonicalNodeRecord schemaVersion node >>= normalized

/-- An assertion on its way into the document. -/
def assertionOf (schemaVersion : Str) (assertion : Assertion) :
    Except CanonicalError (AssertionRecord (List DerivedFrom)) :=
  canonicalAssertionRecord schemaVersion assertion >>= normalized

theorem IsEvidence.normalized {x : EvidenceRecord} (h : IsEvidence x) : normalized x = .ok x := by
  rcases h with ⟨e, he⟩
  rcases bind_eq_ok.mp he with ⟨r, _, hr⟩
  exact normalized_idem hr

theorem IsReference.normalized {d : DerivedFrom} (h : IsReference d) : normalized d = .ok d := by
  rcases h with ⟨r, hr⟩
  have hnfc := (prepareReference_eq_ok hr).1
  simp only [Record.normalized, hnfc]

theorem normalizeAll_self {β : Type} [Record β] {l : List β} (h : ∀ r ∈ l, normalized r = .ok r) :
    normalizeAll l = .ok l :=
  collect_self h

theorem orderEvidence_canonical {l : List Evidence} {m : List EvidenceRecord}
    (h : orderEvidence l = .ok m) :
    normalizeAll m = .ok m ∧ orderedEvidence m = m ∧
      {x | x ∈ m} = results prepareEvidence l := by
  rw [orderEvidence_eq_ok] at h
  refine ⟨normalizeAll_self (fun x hx => ?_), ?_, ?_⟩
  · rcases (mem_arrange h).mp hx with ⟨e, _, he⟩
    exact IsEvidence.normalized ⟨e, he⟩
  · rcases arrange_eq_ok.mp h with ⟨prepared, _, rfl⟩
    exact Ordering.ordered_ordered code_injective prepared
  · ext x
    exact mem_arrange h

theorem sortDerivedFrom_canonical {l : List Reference} {m : List DerivedFrom}
    (h : sortDerivedFrom l = .ok m) :
    normalizeAll m = .ok m ∧ orderedDerivations m = m ∧
      {d | d ∈ m} = results prepareReference l := by
  refine ⟨normalizeAll_self (fun d hd => ?_), ?_, ?_⟩
  · rcases (mem_arrange h).mp hd with ⟨r, _, hr⟩
    exact IsReference.normalized ⟨r, hr⟩
  · rcases arrange_eq_ok.mp h with ⟨prepared, _, rfl⟩
    exact Ordering.ordered_ordered code_injective prepared
  · ext d
    exact mem_arrange h

variable {schemaVersion : Str} {rs : List EdgeRow}

theorem nodeOf_content {node : Node} {r : NodeRecord (List EvidenceRecord)}
    (h : nodeOf schemaVersion node = .ok r) :
    nodeContent schemaVersion node = .ok r.overSets ∧
      orderedEvidence r.evidence = r.evidence := by
  rcases bind_eq_ok.mp h with ⟨record, hrecord, h⟩
  rcases bind_eq_ok.mp hrecord with ⟨evidence, hevidence, hrecord⟩
  rcases orderEvidence_canonical hevidence with ⟨hnormal, hordered, hset⟩
  rw [← Except.ok.inj hrecord] at h
  simp only [normalized, hnormal, ok_bind] at h
  rcases bind_eq_ok.mp h with ⟨properties, hproperties, h⟩
  cases h
  refine ⟨?_, hordered⟩
  rw [nodeContent, hproperties, ok_bind, NodeRecord.overSets, hset]

theorem assertionOf_content {assertion : Assertion} {r : AssertionRecord (List DerivedFrom)}
    (h : assertionOf schemaVersion assertion = .ok r) :
    assertionContent schemaVersion assertion = .ok r.overSets ∧
      orderedDerivations r.derivedFrom = r.derivedFrom := by
  rcases bind_eq_ok.mp h with ⟨record, hrecord, h⟩
  rcases bind_eq_ok.mp hrecord with ⟨derivedFrom, hderived, hrecord⟩
  rcases sortDerivedFrom_canonical hderived with ⟨hnormal, hordered, hset⟩
  rw [← Except.ok.inj hrecord] at h
  simp only [normalized, hnormal, ok_bind] at h
  rcases bind_eq_ok.mp h with ⟨value, hvalue, h⟩
  cases h
  refine ⟨?_, hordered⟩
  rw [assertionContent, hvalue, ok_bind, AssertionRecord.overSets, hset]

/-- A record with its strings in normal form. -/
def EdgeRecord.nfc (r : EdgeRow) : EdgeRow where
  edgeId := Unicode.nfc r.edgeId
  subjectKind := Unicode.nfc r.subjectKind
  subjectKey := Unicode.nfc r.subjectKey
  predicate := Unicode.nfc r.predicate
  objectKind := Unicode.nfc r.objectKind
  objectKey := Unicode.nfc r.objectKey
  truthClass := Unicode.nfc r.truthClass
  producer := Unicode.nfc r.producer
  producerVersion := Unicode.nfc r.producerVersion
  schemaVersion := Unicode.nfc r.schemaVersion
  evidence := r.evidence
  derivedFrom := r.derivedFrom

/-- The records that the edges of a document are. -/
def edgeRows (rs : List EdgeRow) : Set EdgeRow :=
  {c | ∃ r ∈ firsts rs, c = (merged rs r).nfc}

theorem merged_normalized (hrs : ∀ r ∈ rs, Made r) (r : EdgeRow) :
    normalized (merged rs r) = .ok (merged rs r).nfc := by
  have hevidence : normalizeAll (merged rs r).evidence = .ok (merged rs r).evidence := by
    refine normalizeAll_self (fun x hx => ?_)
    rcases mem_merged_evidence.mp hx with ⟨q, hq, _, hx⟩
    exact ((hrs q hq).evidence x hx).normalized
  have hderived : normalizeAll (merged rs r).derivedFrom = .ok (merged rs r).derivedFrom := by
    refine normalizeAll_self (fun d hd => ?_)
    rcases mem_merged_derivedFrom.mp hd with ⟨q, hq, _, hd⟩
    exact ((hrs q hq).derivedFrom d hd).normalized
  simp only [normalized, hevidence, hderived, ok_bind]
  rfl

/-- The edges of the document, in order. -/
theorem orderRecords_groupedOf (hrs : ∀ r ∈ rs, Made r) {m : List EdgeRow}
    (h : orderRecords edgeRank (groupedOf rs) = .ok m) {c : EdgeRow} : c ∈ m ↔ c ∈ edgeRows rs := by
  rw [mem_arrange h]
  constructor
  · rintro ⟨g, hg, hc⟩
    rcases mem_map.mp hg with ⟨r, hr, rfl⟩
    rw [merged_normalized hrs] at hc
    exact ⟨r, hr, (Except.ok.inj hc).symm⟩
  · rintro ⟨r, hr, rfl⟩
    exact ⟨merged rs r, mem_map_of_mem hr, merged_normalized hrs r⟩

theorem collect_made {edges : List Edge}
    (h : collect (canonicalEdgeRecord schemaVersion) edges = .ok rs) : ∀ r ∈ rs, Made r := by
  intro r hr
  rcases (mem_collect h).mp hr with ⟨e, _, he⟩
  exact canonicalEdgeRecord_made he

theorem orderRecords_groupedOf_ok (hrs : ∀ r ∈ rs, Made r) :
    ∃ m, orderRecords edgeRank (groupedOf rs) = .ok m := by
  refine arrange_ok_iff.mpr (fun g hg => ?_)
  rcases mem_map.mp hg with ⟨r, _, rfl⟩
  exact ⟨_, merged_normalized hrs r⟩

/-- When the arrays of the document can be made, and what they are. -/
structure ArraysOf (g : Graph) (a : Arrays) : Prop where
  nodes : arrange (nodeOf g.schemaVersion) nodeRank g.nodes = .ok a.nodes
  edges : ∃ rs, collect (canonicalEdgeRecord g.schemaVersion) g.edges = .ok rs ∧ Mergeable rs ∧
    orderRecords edgeRank (groupedOf rs) = .ok a.edges
  assertions : arrange (assertionOf g.schemaVersion) assertionRank g.assertions = .ok a.assertions
  observations : arrange observationContent observationRank g.observations = .ok a.observations
  diagnostics : arrange diagnosticContent diagnosticRank g.diagnostics = .ok a.diagnostics

theorem canonicalArrays_eq_ok {g : Graph} {a : Arrays} :
    canonicalArrays g = .ok a ↔ ArraysOf g a := by
  unfold canonicalArrays
  constructor
  · intro h
    rcases bind_eq_ok.mp h with ⟨n, hn, h⟩
    rcases bind_eq_ok.mp h with ⟨nodes, hnodes, h⟩
    rcases bind_eq_ok.mp h with ⟨e, he, h⟩
    rcases bind_eq_ok.mp h with ⟨edges, hedges, h⟩
    rcases bind_eq_ok.mp h with ⟨s, hs, h⟩
    rcases bind_eq_ok.mp h with ⟨assertions, hassertions, h⟩
    rcases bind_eq_ok.mp h with ⟨o, ho, h⟩
    rcases bind_eq_ok.mp h with ⟨observations, hobservations, h⟩
    rcases bind_eq_ok.mp h with ⟨d, hd, h⟩
    rcases bind_eq_ok.mp h with ⟨diagnostics, hdiagnostics, harrays⟩
    rcases consolidateEdges_eq_ok.mp he with ⟨rs, hrs, hm, rfl⟩
    cases harrays
    exact ⟨orderRecords_collect.mp (bind_eq_ok.mpr ⟨n, hn, hnodes⟩), ⟨rs, hrs, hm, hedges⟩,
      orderRecords_collect.mp (bind_eq_ok.mpr ⟨s, hs, hassertions⟩),
      orderRecords_collect.mp (bind_eq_ok.mpr ⟨o, ho, hobservations⟩),
      orderRecords_collect.mp (bind_eq_ok.mpr ⟨d, hd, hdiagnostics⟩)⟩
  · rintro ⟨hnodes, ⟨rs, hrs, hm, hedges⟩, hassertions, hobservations, hdiagnostics⟩
    rcases bind_eq_ok.mp (orderRecords_collect.mpr hnodes) with ⟨n, hn, hnodes⟩
    rcases bind_eq_ok.mp (orderRecords_collect.mpr hassertions) with ⟨s, hs, hassertions⟩
    rcases bind_eq_ok.mp (orderRecords_collect.mpr hobservations) with ⟨o, ho, hobservations⟩
    rcases bind_eq_ok.mp (orderRecords_collect.mpr hdiagnostics) with ⟨d, hd, hdiagnostics⟩
    rw [hn, ok_bind, hnodes, ok_bind, consolidateEdges_eq_ok.mpr ⟨rs, hrs, hm, rfl⟩, ok_bind,
      hedges, ok_bind, hs, ok_bind, hassertions, ok_bind, ho, ok_bind, hobservations, ok_bind, hd,
      ok_bind, hdiagnostics, ok_bind]

end Arrays

section Documents

variable [Unicode]

/-- The document with its own strings in normal form. -/
def canonicalDocument (g : Graph) (a : Arrays) : Value :=
  document { g with
    revisionKind := nfc g.revisionKind
    revisionValue := nfc g.revisionValue
    configHash := nfc g.configHash
    schemaVersion := nfc g.schemaVersion } a

theorem mem_normalizeProducerVersionSet {producers : List Str} {p : Str} :
    p ∈ normalizeProducerVersionSet producers ↔ ∃ q ∈ producers, p = nfc q := by
  unfold normalizeProducerVersionSet
  rw [Ordering.mem_ordered JsonText.utf8Key_injective, mem_map]
  constructor
  · rintro ⟨q, hq, rfl⟩
    exact ⟨q, hq, rfl⟩
  · rintro ⟨q, hq, rfl⟩
    exact ⟨q, hq, rfl⟩

theorem normalize_producers (producers : List Str) :
    normalize (.arr ((normalizeProducerVersionSet producers).map .str)) =
      .ok (.arr ((normalizeProducerVersionSet producers).map .str)) := by
  refine normalize_arr.mpr ⟨_, collect_self (fun v hv => ?_), rfl⟩
  rcases mem_map.mp hv with ⟨p, hp, rfl⟩
  rcases mem_normalizeProducerVersionSet.mp hp with ⟨q, _, rfl⟩
  rw [normalize, nfc_nfc]

theorem normalizeAll_orderRecords {β ρ : Type} [Record β] [LinearOrder ρ] {α : Type}
    {f : α → Except CanonicalError β} {rank : β → ρ} {l : List α} {m : List β}
    (h : arrange (fun a => f a >>= normalized) rank l = .ok m) : normalizeAll m = .ok m := by
  refine normalizeAll_self (fun r hr => ?_)
  rcases (mem_arrange h).mp hr with ⟨a, _, ha⟩
  rcases bind_eq_ok.mp ha with ⟨b, _, hb⟩
  exact normalized_idem hb

variable {g : Graph}

theorem normalize_document {a : Arrays} (h : ArraysOf g a) :
    normalize (document g a) = .ok (canonicalDocument g a) := by
  have hnodes := normalizeAll_orderRecords h.nodes
  have hassertions := normalizeAll_orderRecords h.assertions
  have hobservations := normalizeAll_orderRecords h.observations
  have hdiagnostics := normalizeAll_orderRecords h.diagnostics
  have hedges : normalizeAll a.edges = .ok a.edges := by
    rcases h.edges with ⟨rs, hrs, _, hm⟩
    refine normalizeAll_self (fun r hr => ?_)
    rcases (mem_arrange hm).mp hr with ⟨b, _, hb⟩
    exact normalized_idem hb
  have hrevision : ∀ kind value w, normalize (.obj [("kind".toList, .str kind),
      ("value".toList, .str value)]) = .ok w ↔ w = .obj [("kind".toList, .str (nfc kind)),
        ("value".toList, .str (nfc value))] := by
    intro kind value w
    rw [normalize_keyed (of_decide_eq_true rfl)]
    simp [List.forall₂_cons_left_iff]
  unfold document
  rw [normalize_keyed (of_decide_eq_true rfl)]
  refine ⟨_, ?_, rfl⟩
  refine List.Forall₂.cons ⟨rfl, normalize_arrayOf.mpr ⟨_, hassertions, rfl⟩⟩ ?_
  refine List.Forall₂.cons ⟨rfl, normalize_text.mpr rfl⟩ ?_
  refine List.Forall₂.cons ⟨rfl, normalize_arrayOf.mpr ⟨_, hdiagnostics, rfl⟩⟩ ?_
  refine List.Forall₂.cons ⟨rfl, normalize_arrayOf.mpr ⟨_, hedges, rfl⟩⟩ ?_
  refine List.Forall₂.cons ⟨rfl, normalize_arrayOf.mpr ⟨_, hnodes, rfl⟩⟩ ?_
  refine List.Forall₂.cons ⟨rfl, normalize_arrayOf.mpr ⟨_, hobservations, rfl⟩⟩ ?_
  refine List.Forall₂.cons ⟨rfl, normalize_producers _⟩ ?_
  refine List.Forall₂.cons ⟨rfl, (hrevision _ _ _).mpr rfl⟩ ?_
  exact List.Forall₂.cons ⟨rfl, normalize_text.mpr rfl⟩ List.Forall₂.nil

variable [Hashing]

/-- The hash succeeds exactly when the arrays can be made. -/
theorem computeCanonicalGraphHash_eq_ok {h : Str} :
    computeCanonicalGraphHash g = .ok h ↔
      ∃ a, ArraysOf g a ∧ h = sha256Prefixed (JsonText.utf8 (text (canonicalDocument g a))) := by
  unfold computeCanonicalGraphHash
  rw [bind_eq_ok]
  constructor
  · rintro ⟨a, ha, hbytes⟩
    have ha := canonicalArrays_eq_ok.mp ha
    rw [canonicalJsonBytes, normalize_document ha, ok_bind, ok_bind] at hbytes
    exact ⟨a, ha, (Except.ok.inj hbytes).symm⟩
  · rintro ⟨a, ha, rfl⟩
    refine ⟨a, canonicalArrays_eq_ok.mpr ha, ?_⟩
    rw [canonicalJsonBytes, normalize_document ha, ok_bind, ok_bind]

omit [Unicode] in
theorem sha256Prefixed_injective (hsha : Function.Injective sha256Hex) :
    Function.Injective sha256Prefixed :=
  fun _ _ h => hsha (append_cancel_left h)

end Documents

section Identification

variable [Unicode]

variable {schemaVersion : Str} {edges : List Edge} {rs : List EdgeRow} {g g' : Graph}

theorem edgeOf_content {edge : Edge} {r : EdgeRow}
    (h : canonicalEdgeRecord schemaVersion edge = .ok r) :
    r.triple = edge.triple ∧ {x | x ∈ r.evidence} = results prepareEvidence edge.evidence ∧
      {d | d ∈ r.derivedFrom} = results prepareReference edge.derivedFrom := by
  rcases bind_eq_ok.mp h with ⟨evidence, hevidence, h⟩
  rcases bind_eq_ok.mp h with ⟨derivedFrom, hderived, h⟩
  cases h
  exact ⟨rfl, (orderEvidence_canonical hevidence).2.2, (sortDerivedFrom_canonical hderived).2.2⟩

/-- What the edges of the document say. -/
theorem edgeContents_eq (h : collect (canonicalEdgeRecord schemaVersion) edges = .ok rs) :
    edgeContents schemaVersion edges = EdgeRecord.overSets '' edgeRows rs := by
  have hall := collect_eq_ok.mp h
  have hfirsts : List.Forall₂ (fun e r => canonicalEdgeRecord schemaVersion e = .ok r)
      (Ordering.distinct Edge.triple [] edges) (firsts rs) := by
    have htriple : ∀ e r, canonicalEdgeRecord schemaVersion e = .ok r → e.triple = r.triple :=
      fun e r her => (edgeOf_content her).1.symm
    exact Ordering.distinct_forall₂ htriple hall
  have hcontent : ∀ e r, canonicalEdgeRecord schemaVersion e = .ok r →
      edgeContent schemaVersion edges e = (merged rs r).nfc.overSets := by
    intro e r her
    have htriple := (edgeOf_content her).1
    -- The evidence of a record is that of all edges of its triple.
    have hevidence : {x | ∃ q ∈ edges, q.triple = e.triple ∧
        x ∈ results prepareEvidence q.evidence} = {x | x ∈ (merged rs r).evidence} := by
      ext x
      rw [Set.mem_ofPred_eq, Set.mem_ofPred_eq, mem_merged_evidence]
      constructor
      · rintro ⟨q, hq, ht, hx⟩
        rcases forall₂_mem_left hall hq with ⟨p, hp, hqp⟩
        rcases edgeOf_content hqp with ⟨hpt, hpe, _⟩
        rw [← hpe] at hx
        exact ⟨p, hp, (hpt.trans ht).trans htriple.symm, hx⟩
      · rintro ⟨p, hp, ht, hx⟩
        rcases forall₂_mem_right hall hp with ⟨q, hq, hqp⟩
        rcases edgeOf_content hqp with ⟨hpt, hpe, _⟩
        refine ⟨q, hq, (hpt.symm.trans ht).trans htriple, ?_⟩
        rw [← hpe]
        exact hx
    -- So are the facts it is derived from.
    have hderived : {d | ∃ q ∈ edges, q.triple = e.triple ∧
        d ∈ results prepareReference q.derivedFrom} = {d | d ∈ (merged rs r).derivedFrom} := by
      ext d
      rw [Set.mem_ofPred_eq, Set.mem_ofPred_eq, mem_merged_derivedFrom]
      constructor
      · rintro ⟨q, hq, ht, hd⟩
        rcases forall₂_mem_left hall hq with ⟨p, hp, hqp⟩
        rcases edgeOf_content hqp with ⟨hpt, _, hpd⟩
        rw [← hpd] at hd
        exact ⟨p, hp, (hpt.trans ht).trans htriple.symm, hd⟩
      · rintro ⟨p, hp, ht, hd⟩
        rcases forall₂_mem_right hall hp with ⟨q, hq, hqp⟩
        rcases edgeOf_content hqp with ⟨hpt, _, hpd⟩
        refine ⟨q, hq, (hpt.symm.trans ht).trans htriple, ?_⟩
        rw [← hpd]
        exact hd
    rcases bind_eq_ok.mp her with ⟨_, _, her⟩
    rcases bind_eq_ok.mp her with ⟨_, _, her⟩
    rw [← Except.ok.inj her] at hevidence hderived ⊢
    unfold edgeContent
    rw [hevidence, hderived]
    rfl
  ext c
  constructor
  · rintro ⟨e, he, rfl⟩
    rcases forall₂_mem_left hfirsts he with ⟨r, hr, her⟩
    exact ⟨(merged rs r).nfc, ⟨r, hr, rfl⟩, (hcontent e r her).symm⟩
  · rintro ⟨_, ⟨r, hr, rfl⟩, rfl⟩
    rcases forall₂_mem_right hfirsts hr with ⟨e, he, her⟩
    exact ⟨e, he, (hcontent e r her).symm⟩

theorem edgeRows_ordered {c : EdgeRow} (hc : c ∈ edgeRows rs) :
    orderedEvidence c.evidence = c.evidence ∧
      orderedDerivations c.derivedFrom = c.derivedFrom := by
  rcases hc with ⟨r, _, rfl⟩
  exact ⟨Ordering.ordered_ordered code_injective _, Ordering.ordered_ordered code_injective _⟩

/-- The edges of two documents are the same exactly when they say the same. -/
theorem edgeRows_eq_iff {schemaVersion' : Str} {edges' : List Edge} {rs' : List EdgeRow}
    (h : collect (canonicalEdgeRecord schemaVersion) edges = .ok rs)
    (h' : collect (canonicalEdgeRecord schemaVersion') edges' = .ok rs') :
    edgeRows rs = edgeRows rs' ↔
      edgeContents schemaVersion edges = edgeContents schemaVersion' edges' := by
  rw [edgeContents_eq h, edgeContents_eq h']
  constructor
  · intro he
    rw [he]
  · intro he
    have hsubset : ∀ {rs rs' : List EdgeRow}, EdgeRecord.overSets '' edgeRows rs =
        EdgeRecord.overSets '' edgeRows rs' → edgeRows rs ⊆ edgeRows rs' := by
      intro rs rs' he c hc
      have hmem : c.overSets ∈ EdgeRecord.overSets '' edgeRows rs' := by
        rw [← he]
        exact ⟨c, hc, rfl⟩
      rcases hmem with ⟨c', hc', hcc⟩
      have hcanonical := edgeRows_ordered hc
      have hcanonical' := edgeRows_ordered hc'
      rw [← EdgeRecord.overSets_inj hcanonical'.1 hcanonical'.2 hcanonical.1 hcanonical.2 hcc]
      exact hc'
    exact Set.Subset.antisymm (hsubset he) (hsubset he.symm)

theorem document_inj {a a' : Arrays} :
    canonicalDocument g a = canonicalDocument g' a' ↔
      (nfc g.schemaVersion = nfc g'.schemaVersion ∧ nfc g.revisionKind = nfc g'.revisionKind ∧
        nfc g.revisionValue = nfc g'.revisionValue ∧ nfc g.configHash = nfc g'.configHash ∧
        normalizeProducerVersionSet g.producerVersionSet =
          normalizeProducerVersionSet g'.producerVersionSet) ∧
      a.nodes = a'.nodes ∧ a.edges = a'.edges ∧ a.assertions = a'.assertions ∧
        a.observations = a'.observations ∧ a.diagnostics = a'.diagnostics := by
  have hstr : Function.Injective (List.map Value.str) :=
    map_injective_iff.mpr (fun _ _ h => Value.str.inj h)
  unfold canonicalDocument document
  simp only [Value.obj.injEq, List.cons.injEq, Prod.mk.injEq, true_and, and_true, arrayOf_inj,
    Value.str.injEq, Value.arr.injEq, hstr.eq_iff]
  -- the keys stand in the order of the document on the left, in that of a graph on the right
  constructor
  · rintro ⟨ha, hc, hd, he, hn, ho, hp, ⟨hk, hv⟩, hs⟩
    exact ⟨⟨hs, hk, hv, hc, hp⟩, hn, he, ha, ho, hd⟩
  · rintro ⟨⟨hs, hk, hv, hc, hp⟩, hn, he, ha, ho, hd⟩
    exact ⟨ha, hc, hd, he, hn, ho, hp, ⟨hk, hv⟩, hs⟩

theorem producers_eq_iff {l l' : List Str} :
    normalizeProducerVersionSet l = normalizeProducerVersionSet l' ↔
      {p | ∃ q ∈ l, p = nfc q} = {p | ∃ q ∈ l', p = nfc q} := by
  unfold normalizeProducerVersionSet
  rw [Ordering.ordered_eq_iff JsonText.utf8Key_injective, Set.ext_iff]
  refine forall_congr' (fun p => ?_)
  simp [eq_comm]

variable [Hashing]

/-- Two hashes agree exactly when the graphs say the same. -/
theorem computeCanonicalGraphHash_eq_iff (hsha : Function.Injective sha256Hex) {h h' : Str}
    (hg : computeCanonicalGraphHash g = .ok h) (hg' : computeCanonicalGraphHash g' = .ok h') :
    h = h' ↔ contentOf g = contentOf g' := by
  rcases computeCanonicalGraphHash_eq_ok.mp hg with ⟨a, ha, rfl⟩
  rcases computeCanonicalGraphHash_eq_ok.mp hg' with ⟨a', ha', rfl⟩
  have hbytes : Function.Injective (fun v : Value =>
      sha256Prefixed (JsonText.utf8 (text v))) := fun _ _ e =>
    text_injective (JsonText.utf8_injective (sha256Prefixed_injective hsha e))
  have hnodes : a.nodes = a'.nodes ↔ results (nodeContent g.schemaVersion) g.nodes =
      results (nodeContent g'.schemaVersion) g'.nodes := by
    rw [arrange_eq_iff ha.nodes ha'.nodes]
    exact results_eq_iff (fun _ _ => nodeOf_content) (fun _ _ => nodeOf_content)
      (fun _ _ => NodeRecord.overSets_inj) (arrange_ok_iff.mp ⟨_, ha.nodes⟩)
      (arrange_ok_iff.mp ⟨_, ha'.nodes⟩)
  have hassertions : a.assertions = a'.assertions ↔
      results (assertionContent g.schemaVersion) g.assertions =
        results (assertionContent g'.schemaVersion) g'.assertions := by
    rw [arrange_eq_iff ha.assertions ha'.assertions]
    exact results_eq_iff (fun _ _ => assertionOf_content) (fun _ _ => assertionOf_content)
      (fun _ _ => AssertionRecord.overSets_inj) (arrange_ok_iff.mp ⟨_, ha.assertions⟩)
      (arrange_ok_iff.mp ⟨_, ha'.assertions⟩)
  have hedges : a.edges = a'.edges ↔ edgeContents g.schemaVersion g.edges =
      edgeContents g'.schemaVersion g'.edges := by
    rcases ha.edges with ⟨rs, hrs, _, hm⟩
    rcases ha'.edges with ⟨rs', hrs', _, hm'⟩
    rw [← edgeRows_eq_iff hrs hrs', arrange_eq_iff hm hm', Set.ext_iff, Set.ext_iff]
    refine forall_congr' (fun c => ?_)
    rw [← mem_arrange hm, ← mem_arrange hm', orderRecords_groupedOf (collect_made hrs) hm,
      orderRecords_groupedOf (collect_made hrs') hm']
  have hobservations := arrange_eq_iff ha.observations ha'.observations
  have hdiagnostics := arrange_eq_iff ha.diagnostics ha'.diagnostics
  rw [hbytes.eq_iff, document_inj, hnodes, hedges, hassertions, hobservations, hdiagnostics,
    producers_eq_iff]
  unfold contentOf
  simp only [Content.mk.injEq]
  rw [and_assoc, and_assoc, and_assoc, and_assoc]

end Identification

end Canonical

end Partha
