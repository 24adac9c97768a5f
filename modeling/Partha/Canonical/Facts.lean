import Partha.Canonical.Records

/-!
# Records of Facts

The five kinds of records of the canonical document.
-/

namespace Partha

namespace Canonical

open Checked

section Nodes

/-- A node mapping. -/
structure Node where
  nodeKind : Str
  stableKey : Str
  truthClass : Str
  name : Option Str
  language : Option Str
  properties : Option (List (Str × Value))
  evidence : List Evidence

/-- A node record, over a collection of evidence. -/
structure NodeRecord (E : Type) where
  nodeKind : Str
  stableKey : Str
  truthClass : Str
  schemaVersion : Str
  name : Option Str
  language : Option Str
  properties : Option (List (Str × Value))
  evidence : E

def NodeRecord.names : List Str :=
  ["evidence".toList, "kind".toList, "language".toList, "name".toList, "node_kind".toList,
    "properties".toList, "schema_version".toList, "stable_key".toList, "truth_class".toList]

theorem NodeRecord.names_keyed : Keyed NodeRecord.names := by
  decide

variable [Unicode]

instance : Record (NodeRecord (List EvidenceRecord)) where
  toValue r := .obj ([("evidence".toList, arrayOf r.evidence),
      ("kind".toList, .str "node".toList)] ++
    optional "language" (r.language.map .str) ++ optional "name" (r.name.map .str) ++
    [("node_kind".toList, .str r.nodeKind)] ++ optional "properties" (r.properties.map .obj) ++
    [("schema_version".toList, .str r.schemaVersion), ("stable_key".toList, .str r.stableKey),
      ("truth_class".toList, .str r.truthClass)])
  normalized r := do
    let evidence ← normalizeAll r.evidence
    let properties ← normalizeOptional r.properties
    .ok {
      nodeKind := nfc r.nodeKind
      stableKey := nfc r.stableKey
      truthClass := nfc r.truthClass
      schemaVersion := nfc r.schemaVersion
      name := r.name.map nfc
      language := r.language.map nfc
      properties := properties
      evidence := evidence }
  normalize_toValue r w := by
    have hnode : nfc ['n', 'o', 'd', 'e'] = ['n', 'o', 'd', 'e'] := nfc_ascii _ (by decide)
    rw [normalize_keyed (NodeRecord.names_keyed.sublist (by
      simp only [List.map_append]
      exact ((((List.Sublist.refl _).append (optional_names _ _)).append
        (optional_names _ _)).append (List.Sublist.refl _)).append (optional_names _ _) |>.append
        (List.Sublist.refl _)))]
    simp [forall₂_append_left, forall₂_optional, List.forall₂_cons_left_iff, bind_eq_ok, hnode,
      and_assoc]
  toValue_injective r r' h := by
    rcases r with ⟨nodeKind, stableKey, truthClass, schemaVersion, name, language, properties,
      evidence⟩
    rcases r' with ⟨nodeKind', stableKey', truthClass', schemaVersion', name', language',
      properties', evidence'⟩
    cases name <;> cases name' <;> cases language <;> cases language' <;> cases properties <;>
      cases properties' <;> simp [optional] at h ⊢
    all_goals tauto

/-- A mapping that is left out when it is empty. -/
def ifAny : Option (List (Str × Value)) → Option (List (Str × Value))
  | some [] => none
  | properties => properties

/-- `canonical_node_record`. -/
def canonicalNodeRecord (schemaVersion : Str) (node : Node) :
    Except CanonicalError (NodeRecord (List EvidenceRecord)) := do
  let evidence ← orderEvidence node.evidence
  .ok {
    nodeKind := node.nodeKind
    stableKey := node.stableKey
    truthClass := node.truthClass
    schemaVersion := schemaVersion
    name := node.name
    language := node.language
    properties := ifAny node.properties
    evidence := evidence }

end Nodes

section Edges

/-- An edge mapping. -/
structure Edge where
  edgeId : Str
  subjectKind : Str
  subjectKey : Str
  predicate : Str
  objectKind : Str
  objectKey : Str
  truthClass : Str
  producer : Str
  producerVersion : Str
  evidence : List Evidence
  derivedFrom : List Reference

/-- An edge record, over a collection of evidence and one of derivations. -/
structure EdgeRecord (E D : Type) where
  edgeId : Str
  subjectKind : Str
  subjectKey : Str
  predicate : Str
  objectKind : Str
  objectKey : Str
  truthClass : Str
  producer : Str
  producerVersion : Str
  schemaVersion : Str
  evidence : E
  derivedFrom : D

variable [Unicode]

instance : Record (EdgeRecord (List EvidenceRecord) (List DerivedFrom)) where
  toValue r := .obj [("derived_from".toList, arrayOf r.derivedFrom),
    ("edge_id".toList, .str r.edgeId), ("evidence".toList, arrayOf r.evidence),
    ("kind".toList, .str "edge".toList), ("object".toList, endpoint r.objectKind r.objectKey),
    ("predicate".toList, .str r.predicate), ("producer".toList, .str r.producer),
    ("producer_version".toList, .str r.producerVersion),
    ("schema_version".toList, .str r.schemaVersion),
    ("subject".toList, endpoint r.subjectKind r.subjectKey),
    ("truth_class".toList, .str r.truthClass)]
  normalized r := do
    let derivedFrom ← normalizeAll r.derivedFrom
    let evidence ← normalizeAll r.evidence
    .ok {
      edgeId := nfc r.edgeId
      subjectKind := nfc r.subjectKind
      subjectKey := nfc r.subjectKey
      predicate := nfc r.predicate
      objectKind := nfc r.objectKind
      objectKey := nfc r.objectKey
      truthClass := nfc r.truthClass
      producer := nfc r.producer
      producerVersion := nfc r.producerVersion
      schemaVersion := nfc r.schemaVersion
      evidence := evidence
      derivedFrom := derivedFrom }
  normalize_toValue r w := by
    have hedge : nfc ['e', 'd', 'g', 'e'] = ['e', 'd', 'g', 'e'] := nfc_ascii _ (by decide)
    rw [normalize_keyed (of_decide_eq_true rfl)]
    simp [List.forall₂_cons_left_iff, bind_eq_ok, hedge, and_assoc]
  toValue_injective r r' h := by
    rcases r
    rcases r'
    simp at h ⊢
    tauto

/-- `canonical_edge_record`. -/
def canonicalEdgeRecord (schemaVersion : Str) (edge : Edge) :
    Except CanonicalError (EdgeRecord (List EvidenceRecord) (List DerivedFrom)) := do
  let evidence ← orderEvidence edge.evidence
  let derivedFrom ← sortDerivedFrom edge.derivedFrom
  .ok {
    edgeId := edge.edgeId
    subjectKind := edge.subjectKind
    subjectKey := edge.subjectKey
    predicate := edge.predicate
    objectKind := edge.objectKind
    objectKey := edge.objectKey
    truthClass := edge.truthClass
    producer := edge.producer
    producerVersion := edge.producerVersion
    schemaVersion := schemaVersion
    evidence := evidence
    derivedFrom := derivedFrom }

end Edges

section Assertions

/-- An assertion mapping. -/
structure Assertion where
  assertionId : Str
  subjectKind : Str
  subjectKey : Str
  predicate : Str
  value : List (Str × Value)
  truthClass : Str
  producer : Str
  producerVersion : Str
  derivedFrom : List Reference

/-- An assertion record, over a collection of derivations. -/
structure AssertionRecord (D : Type) where
  assertionId : Str
  subjectKind : Str
  subjectKey : Str
  predicate : Str
  value : List (Str × Value)
  truthClass : Str
  producer : Str
  producerVersion : Str
  schemaVersion : Str
  derivedFrom : D

variable [Unicode]

instance : Record (AssertionRecord (List DerivedFrom)) where
  toValue r := .obj [("assertion_id".toList, .str r.assertionId),
    ("derived_from".toList, arrayOf r.derivedFrom), ("kind".toList, .str "assertion".toList),
    ("predicate".toList, .str r.predicate), ("producer".toList, .str r.producer),
    ("producer_version".toList, .str r.producerVersion),
    ("schema_version".toList, .str r.schemaVersion),
    ("subject".toList, endpoint r.subjectKind r.subjectKey),
    ("truth_class".toList, .str r.truthClass), ("value".toList, .obj r.value)]
  normalized r := do
    let derivedFrom ← normalizeAll r.derivedFrom
    let value ← normalizeMapping r.value
    .ok {
      assertionId := nfc r.assertionId
      subjectKind := nfc r.subjectKind
      subjectKey := nfc r.subjectKey
      predicate := nfc r.predicate
      value := value
      truthClass := nfc r.truthClass
      producer := nfc r.producer
      producerVersion := nfc r.producerVersion
      schemaVersion := nfc r.schemaVersion
      derivedFrom := derivedFrom }
  normalize_toValue r w := by
    have hassertion : nfc ['a', 's', 's', 'e', 'r', 't', 'i', 'o', 'n'] =
        ['a', 's', 's', 'e', 'r', 't', 'i', 'o', 'n'] := nfc_ascii _ (by decide)
    rw [normalize_keyed (of_decide_eq_true rfl)]
    simp [List.forall₂_cons_left_iff, bind_eq_ok, hassertion, and_assoc]
  toValue_injective r r' h := by
    rcases r
    rcases r'
    simp at h ⊢
    tauto

/-- `canonical_assertion_record`. -/
def canonicalAssertionRecord (schemaVersion : Str) (assertion : Assertion) :
    Except CanonicalError (AssertionRecord (List DerivedFrom)) := do
  let derivedFrom ← sortDerivedFrom assertion.derivedFrom
  .ok {
    assertionId := assertion.assertionId
    subjectKind := assertion.subjectKind
    subjectKey := assertion.subjectKey
    predicate := assertion.predicate
    value := assertion.value
    truthClass := assertion.truthClass
    producer := assertion.producer
    producerVersion := assertion.producerVersion
    schemaVersion := schemaVersion
    derivedFrom := derivedFrom }

end Assertions

section Observations

/-- An observation mapping. -/
structure Observation where
  observationId : Str
  observedKind : Str
  subjectKind : Str
  subjectKey : Str
  referentText : Option Str
  ordinal : Int
  evidence : Evidence

/-- An observation record. -/
structure ObservationRecord where
  observationId : Str
  observedKind : Str
  subjectKind : Str
  subjectKey : Str
  referentText : Option Str
  ordinal : Int
  evidence : EvidenceRecord

variable [Unicode]

instance : Record ObservationRecord where
  toValue r := .obj [("evidence".toList, toValue r.evidence),
    ("observation_id".toList, .str r.observationId),
    ("observed_kind".toList, .str r.observedKind), ("ordinal".toList, .num r.ordinal),
    ("referent_text".toList, textOrNull r.referentText),
    ("subject".toList, endpoint r.subjectKind r.subjectKey)]
  normalized r := do
    let evidence ← normalized r.evidence
    let ordinal ← exactInteger r.ordinal
    .ok {
      observationId := nfc r.observationId
      observedKind := nfc r.observedKind
      subjectKind := nfc r.subjectKind
      subjectKey := nfc r.subjectKey
      referentText := r.referentText.map nfc
      ordinal := ordinal
      evidence := evidence }
  normalize_toValue r w := by
    rw [normalize_keyed (of_decide_eq_true rfl)]
    simp [List.forall₂_cons_left_iff, bind_eq_ok, and_assoc, normalize_toValue]
  toValue_injective r r' h := by
    rcases r
    rcases r'
    simp [toValue_injective.eq_iff] at h ⊢
    tauto

/-- `canonical_observation_record`. -/
def canonicalObservationRecord (observation : Observation) :
    Except CanonicalError ObservationRecord := do
  let evidence ← canonicalEvidenceRecord observation.evidence
  .ok {
    observationId := observation.observationId
    observedKind := observation.observedKind
    subjectKind := observation.subjectKind
    subjectKey := observation.subjectKey
    referentText := observation.referentText
    ordinal := observation.ordinal
    evidence := evidence }

end Observations

section Diagnostics

/-- A diagnostic mapping. -/
structure Diagnostic where
  code : Str
  category : Str
  severity : Str
  message : Str
  producer : Str
  path : Option Str
  span : Option (Int × Int)
  subject : Option Str
  object : Option Str
  details : Option (List (Str × Value))

/-- A diagnostic record. -/
structure DiagnosticRecord where
  code : Str
  category : Str
  severity : Str
  message : Str
  producer : Str
  path : Option Str
  span : Option (Int × Int)
  subject : Option Str
  object : Option Str
  details : List (Str × Value)

variable [Unicode]

instance : Record DiagnosticRecord where
  toValue r := .obj [("category".toList, .str r.category), ("code".toList, .str r.code),
    ("details".toList, .obj r.details), ("message".toList, .str r.message),
    ("object".toList, textOrNull r.object), ("path".toList, textOrNull r.path),
    ("producer".toList, .str r.producer), ("severity".toList, .str r.severity),
    ("span".toList, spanOrNull r.span), ("subject".toList, textOrNull r.subject)]
  normalized r := do
    let details ← normalizeMapping r.details
    let span ← normalizeSpan r.span
    .ok {
      code := nfc r.code
      category := nfc r.category
      severity := nfc r.severity
      message := nfc r.message
      producer := nfc r.producer
      path := r.path.map nfc
      span := span
      subject := r.subject.map nfc
      object := r.object.map nfc
      details := details }
  normalize_toValue r w := by
    rw [normalize_keyed (of_decide_eq_true rfl)]
    simp [List.forall₂_cons_left_iff, bind_eq_ok, and_assoc]
  toValue_injective r r' h := by
    rcases r
    rcases r'
    simp at h ⊢
    tauto

/-- `normalize_repo_path` of a path that may be missing. -/
def normalizeOptionalPath : Option Str → Except CanonicalError (Option Str)
  | none => .ok none
  | some path => do
    let path ← normalizeRepoPath path
    .ok (some path)

/-- `canonical_diagnostic_record`. -/
def canonicalDiagnosticRecord (diagnostic : Diagnostic) :
    Except CanonicalError DiagnosticRecord := do
  let path ← normalizeOptionalPath diagnostic.path
  .ok {
    code := diagnostic.code
    category := diagnostic.category
    severity := diagnostic.severity
    message := diagnostic.message
    producer := diagnostic.producer
    path := path
    span := diagnostic.span
    subject := diagnostic.subject
    object := diagnostic.object
    details := diagnostic.details.getD [] }

end Diagnostics

end Canonical

end Partha
