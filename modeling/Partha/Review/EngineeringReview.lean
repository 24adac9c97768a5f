import Partha.Canonical.GraphHash
import Partha.Insights.RelationshipDiagnostics
import Partha.Library.SortKeys

/-!
# Engineering Review

The findings of a sealed snapshot, as `EngineeringReviewBuilder.build` publishes
them.

A diagnostic becomes a finding if its code has a rule, some evidence supports it
and it is not an expected unresolved reference. The evidence is looked for by
the facts the diagnostic names, in a fixed order, and has to be at the place the
diagnostic recorded. Whatever is not reported is counted.

The request narrows which findings are returned and how many. Its `category` is
a local variable of `build`, and the loop over the diagnostics assigns to the
same variable. So `LoopState` carries it, next to the findings and the count.

The rows of the diagnostics come in the order of the query. The identifiers that
are bound in batches are read at once here, since the rows of every fact are
sorted again afterwards. The identity of the repository and of the snapshot that
a response repeats is left out.

## Main definitions

* `evidenceByFact`: `_evidence_by_fact`.
* `supportFor`: `_support_for`.
* `promoted`: What the loop decides about one diagnostic.
* `findingOf`: The finding it then builds.
* `build`: `build`.
-/

namespace Partha

namespace Review

open Canonical Insights SortKeys

/-- `ReviewCategoryId`, in the order of `_CATEGORY_LABELS`. -/
inductive CategoryId where
  | architectureBoundaries
  | relationshipResolution
  | sourceExtraction
  | dependencyDeclarations
  | securityVulnerabilityScanning
  | authenticationEvidence
  | repositoryStructure
  | analysisIntegrity
  deriving DecidableEq, Repr

/-- The identifier of a category, by which findings are sorted. -/
def CategoryId.text : CategoryId → Str
  | .architectureBoundaries => "architecture_boundaries".toList
  | .relationshipResolution => "relationship_resolution".toList
  | .sourceExtraction => "source_extraction".toList
  | .dependencyDeclarations => "dependency_declarations".toList
  | .securityVulnerabilityScanning => "security_vulnerability_scanning".toList
  | .authenticationEvidence => "authentication_evidence".toList
  | .repositoryStructure => "repository_structure".toList
  | .analysisIntegrity => "analysis_integrity".toList

def CategoryId.label : CategoryId → String
  | .architectureBoundaries => "Architecture and boundaries"
  | .relationshipResolution => "Relationship resolution"
  | .sourceExtraction => "Source extraction"
  | .dependencyDeclarations => "Dependency declarations"
  | .securityVulnerabilityScanning => "Security vulnerability scanning"
  | .authenticationEvidence => "Authentication evidence"
  | .repositoryStructure => "Repository structure"
  | .analysisIntegrity => "Analysis integrity"

/-- The keys of `_CATEGORY_LABELS`. -/
def categoryIds : List CategoryId :=
  [.architectureBoundaries, .relationshipResolution, .sourceExtraction, .dependencyDeclarations,
    .securityVulnerabilityScanning, .authenticationEvidence, .repositoryStructure,
    .analysisIntegrity]

inductive Severity where
  | critical
  | high
  | medium
  | low
  | info
  deriving DecidableEq, Repr

/-- `DIAGNOSTIC_SEVERITY_MAPPING`. -/
def severityOf : StoredSeverity → Severity
  | .fatal => .critical
  | .error => .high
  | .warning => .medium
  | .info => .info

/-- `severity_rank`. -/
def Severity.rank : Severity → Nat
  | .critical => 0
  | .high => 1
  | .medium => 2
  | .low => 3
  | .info => 4

inductive SupportStatus where
  | supported
  | fileScoped
  deriving DecidableEq, Repr

inductive AssessmentState where
  | assessed
  | partiallyAssessed
  | notAssessed
  | insufficientEvidence
  deriving DecidableEq, Repr

/-- What a diagnostic code is reported as. -/
structure Rule where
  category : CategoryId
  title : String
  remediation : String
  deriving DecidableEq, Repr

/-- `_RULES`. -/
def rules : List (Str × Rule) :=
  [(riResUnresolved,
      { category := .relationshipResolution
        title := "Unresolved relationship"
        remediation := "Inspect the referenced name at this source span and make its target " ++
          "explicit or add extractor support for the construct." }),
    (riResAmbiguous,
      { category := .relationshipResolution
        title := "Ambiguous relationship"
        remediation := "Disambiguate the referenced name at this source span so it resolves " ++
          "to one target." }),
    ("RI-EXT-UNSUPPORTED".toList,
      { category := .sourceExtraction
        title := "Unsupported source construct"
        remediation := "Rewrite the recorded construct into a supported form or extend the " ++
          "named extractor before relying on it for repository relationships." }),
    ("RI-SRC-MALFORMED".toList,
      { category := .sourceExtraction
        title := "Malformed source"
        remediation := "Store this source as valid UTF-8 before attempting line-addressed " ++
          "semantic extraction." }),
    ("RI-LIMIT-SKIP".toList,
      { category := .sourceExtraction
        title := "Source excluded by extraction limit"
        remediation := "Reduce the file below the configured extraction limit or raise the " ++
          "documented limit and rerun analysis." })]

/-- `_RULES.get(code)`. -/
def ruleOf (code : Str) : Option Rule :=
  rules.lookup code

/-- `_SOURCE_EXTRACTION_CODES`. -/
def sourceExtraction (code : Str) : Bool :=
  (ruleOf code).any (fun rule => rule.category = .sourceExtraction)

/-- Evidence that addresses a diagnostic, and the fact it belongs to. -/
structure SupportedEvidence where
  factId : Str
  evidence : RiEvidence
  supportStatus : SupportStatus
  deriving DecidableEq, Repr

/-- `ReviewFinding`, with its `ReviewEvidenceReference`. -/
structure Finding where
  id : Str
  category : CategoryId
  severity : Severity
  title : String
  explanation : Str
  path : Str
  startLine : Nat
  endLine : Nat
  snapshotId : Str
  factId : Str
  evidenceId : Str
  extractorName : Str
  extractorVersion : Str
  diagnosticCode : Str
  ruleId : Str
  remediationGuidance : String
  supportStatus : SupportStatus
  deriving DecidableEq, Repr

/-- What a caller asks for. Each filter may be absent. -/
structure Request where
  category : Option CategoryId
  severity : Option Severity
  diagnosticCode : Option Str
  offset : Option Nat
  limit : Option Nat

/-- No filter and no pagination. -/
def Request.everything : Request :=
  { category := none, severity := none, diagnosticCode := none, offset := none, limit := none }

structure CategoryAssessment where
  id : CategoryId
  label : String
  state : AssessmentState
  explanation : String
  findingCount : Nat
  deriving DecidableEq, Repr

structure Pagination where
  offset : Nat
  limit : Nat
  total : Nat
  deriving DecidableEq, Repr

/-- `ReviewSummary`, with its `ReviewSeverityCounts`. -/
structure Summary where
  message : String
  info : Nat
  low : Nat
  medium : Nat
  high : Nat
  critical : Nat
  assessedCategories : Nat
  partiallyAssessedCategories : Nat
  notAssessedCategories : Nat
  insufficientEvidenceCategories : Nat
  evidenceBackedFindingCount : Nat
  fileScopedFindingCount : Nat
  omittedUnsupportedDiagnosticCount : Nat
  deriving DecidableEq, Repr

structure Response where
  assessmentStatus : AssessmentState
  categories : List CategoryAssessment
  findings : List Finding
  pagination : Pagination
  summary : Summary
  deriving DecidableEq, Repr

/-- A sealed snapshot as the builder reads it. -/
structure Snapshot where
  snapshotId : Str
  rows : Rows

/-- The order of the evidence rows of one fact. -/
def evidenceKey (e : RiEvidence) : List (List Nat) :=
  [codePoints e.path, [e.startLine], [e.endLine], codePoints e.extractor,
    codePoints e.extractorVersion, [e.id]]

/-- The order of the findings. -/
def findingKey (f : Finding) : List (List Nat) :=
  [[f.severity.rank], codePoints f.category.text, codePoints f.path, [f.startLine],
    codePoints f.diagnosticCode, codePoints f.id]

/-- `f"file:{path}"`, for a path that is not empty. -/
def fileKey (path : Option Str) : Option Str :=
  path.bind (fun path => if path = [] then none else some ("file:".toList ++ path))

/-- The fact that an evidence row belongs to, if a diagnostic names that fact. -/
def factOf (rows : Rows) (diagnostics : List RiDiagnostic) (e : RiEvidence) : Option Str :=
  match e.parent with
  | .observation ref =>
    (rows.observations.find? (fun o => o.id = ref)).bind (fun o =>
      if (diagnostics.filterMap (·.observationId)).elem o.observationId then some o.observationId
      else none)
  | .node ref =>
    (rows.nodes.find? (fun n => n.id = ref)).bind (fun n =>
      if (diagnostics.flatMap (fun d =>
          [d.subjectKey, d.objectKey, fileKey d.path])).elem (some n.stableKey) then
        some n.stableKey
      else none)
  | .edge _ => none

/-- `_evidence_by_fact`, looked up at one fact. -/
def evidenceByFact (rows : Rows) (diagnostics : List RiDiagnostic) (factId : Str) :
    List RiEvidence :=
  sortBy evidenceKey (rows.evidence.filter (fun e => factOf rows diagnostics e = some factId))

/-- The facts whose evidence may address a diagnostic, the closest first. -/
def candidates (d : RiDiagnostic) : List Str :=
  [d.observationId, d.subjectKey, d.objectKey, fileKey d.path].filterMap id

/-- One evidence row against the place that a diagnostic recorded. -/
def addresses (d : RiDiagnostic) (path factId : Str) (e : RiEvidence) : Option SupportedEvidence :=
  if e.path ≠ path then none
  else match d.spanStartLine with
    | some startLine =>
      if e.startLine ≠ startLine ∨ some e.endLine ≠ d.spanEndLine then none
      else some { factId := factId, evidence := e, supportStatus := .supported }
    | none =>
      if e.granularity ≠ .file then none
      else some { factId := factId, evidence := e, supportStatus := .fileScoped }

/-- `_support_for`. -/
def supportFor (d : RiDiagnostic) (byFact : Str → List RiEvidence) : Option SupportedEvidence :=
  match d.path with
  | none => none
  | some path =>
    (candidates d).findSome? (fun factId => (byFact factId).findSome? (addresses d path factId))

/-- `_overall_assessment_status`. -/
def overallAssessmentStatus (states : List AssessmentState) : AssessmentState :=
  if states.elem .assessed ∧ ¬ (states.elem .partiallyAssessed ∨ states.elem .notAssessed ∨
      states.elem .insufficientEvidence) then .assessed
  else if states.elem .assessed ∨ states.elem .partiallyAssessed then .partiallyAssessed
  else if states.elem .insufficientEvidence then .insufficientEvidence
  else .notAssessed

/-- The state of one category, and what is said about it. -/
def assess (rows : Rows) (diagnostics : List RiDiagnostic) : CategoryId → AssessmentState × String
  | .architectureBoundaries => (.partiallyAssessed,
      "Observed nodes and resolved relationships are available; no architectural boundary " ++
        "rating is produced.")
  | .relationshipResolution => (.assessed,
      "Resolver diagnostics were assessed and only same-snapshot evidence-backed diagnostics " ++
        "became findings.")
  | .sourceExtraction =>
    (if diagnostics.any (fun d => sourceExtraction d.code) then .partiallyAssessed
      else .assessed,
    "Extractor diagnostics were assessed; diagnostics without an authentic line-addressed " ++
      "evidence span remain omitted.")
  | .dependencyDeclarations =>
    (if rows.nodes.any (fun n => n.nodeKind = "dependency".toList) then .partiallyAssessed
      else .insufficientEvidence,
    "Declared dependencies are inventoried when present. Vulnerability and outdated-version " ++
      "assessments were not performed.")
  | .securityVulnerabilityScanning => (.notAssessed,
      "No vulnerability database, advisory feed, lockfile audit, or exploitability scanner was " ++
        "run for this revision.")
  | .authenticationEvidence => (.partiallyAssessed,
      "Authentication-relevant observed facts are available, but exploitability and security " ++
        "posture were not assessed.")
  | .repositoryStructure =>
    (if rows.nodes.any (fun n => n.nodeKind = "file".toList) then .partiallyAssessed
      else .insufficientEvidence,
    "The sealed file inventory is available; maintainability and code quality were not " ++
      "inferred from filenames or size.")
  | .analysisIntegrity => (.assessed,
      "The selected snapshot is sealed, revision-bound, and has a canonical graph hash.")

/-- `_categories`. -/
def assessments (rows : Rows) (findings : List Finding) (diagnostics : List RiDiagnostic) :
    List CategoryAssessment :=
  categoryIds.map (fun c =>
    { id := c
      label := c.label
      state := (assess rows diagnostics c).1
      explanation := (assess rows diagnostics c).2
      findingCount := findings.countP (fun f => f.category = c) })

/-- The sentence that the summary opens with. -/
def summaryMessage (count : Nat) : String :=
  toString count ++ " evidence-backed finding" ++ (if count = 1 then " was" else "s were") ++
    " identified in this revision. Security vulnerability scanning was not performed."

def summarize (findings : List Finding) (states : List AssessmentState) (omitted : Nat) :
    Summary :=
  { message := summaryMessage findings.length
    info := findings.countP (fun f => f.severity = .info)
    low := findings.countP (fun f => f.severity = .low)
    medium := findings.countP (fun f => f.severity = .medium)
    high := findings.countP (fun f => f.severity = .high)
    critical := findings.countP (fun f => f.severity = .critical)
    assessedCategories := states.count .assessed
    partiallyAssessedCategories := states.count .partiallyAssessed
    notAssessedCategories := states.count .notAssessed
    insufficientEvidenceCategories := states.count .insufficientEvidence
    evidenceBackedFindingCount := findings.length
    fileScopedFindingCount := findings.countP (fun f => f.supportStatus = .fileScoped)
    omittedUnsupportedDiagnosticCount := omitted }

/-- The local variables of `build` that its loop assigns. -/
structure LoopState where
  category : Option CategoryId
  findings : List Finding
  omitted : Nat

/-- A filter that is absent lets everything pass. -/
def passes {α : Type} [DecidableEq α] (filter : Option α) (a : α) : Bool :=
  filter.all (fun b => a = b)

/-- The condition of the comprehension that builds `matched`. -/
def selected (category : Option CategoryId) (severity : Option Severity)
    (diagnosticCode : Option Str) (f : Finding) : Bool :=
  passes category f.category && passes severity f.severity &&
    passes diagnosticCode f.diagnosticCode

section Building

variable [Unicode] [Hashing]

/-- `_stable_id`. -/
def stableId (start : Str) (payload : List (Str × Value)) : Except CanonicalError Str := do
  let bytes ← canonicalJsonBytes (.obj payload)
  .ok (start ++ ':' :: sha256Hex bytes)

def evidenceIdOf (snapshotId : Str) (supported : SupportedEvidence) : Except CanonicalError Str :=
  stableId "evidence".toList
    [("snapshotId".toList, .str snapshotId),
      ("factId".toList, .str supported.factId),
      ("path".toList, .str supported.evidence.path),
      ("startLine".toList, .num supported.evidence.startLine),
      ("endLine".toList, .num supported.evidence.endLine),
      ("extractor".toList, .str supported.evidence.extractor),
      ("extractorVersion".toList, .str supported.evidence.extractorVersion)]

/-- The finding that a promoted diagnostic becomes. -/
def findingOf (snapshotId : Str) (d : RiDiagnostic) (rule : Rule) (supported : SupportedEvidence) :
    Except CanonicalError Finding := do
  let evidenceId ← evidenceIdOf snapshotId supported
  let findingId ← stableId "finding".toList
    [("snapshotId".toList, .str snapshotId),
      ("code".toList, .str d.code),
      ("producer".toList, .str d.producer),
      ("message".toList, .str d.message),
      ("factId".toList, .str supported.factId),
      ("evidenceId".toList, .str evidenceId)]
  .ok
    { id := findingId
      category := rule.category
      severity := severityOf d.severity
      title := rule.title
      explanation := d.message
      path := supported.evidence.path
      startLine := supported.evidence.startLine
      endLine := supported.evidence.endLine
      snapshotId := snapshotId
      factId := supported.factId
      evidenceId := evidenceId
      extractorName := supported.evidence.extractor
      extractorVersion := supported.evidence.extractorVersion
      diagnosticCode := d.code
      ruleId := "engineering-review.v2/".toList ++ d.code
      remediationGuidance := rule.remediation
      supportStatus := supported.supportStatus }

variable [Interpreter]

/-- `_is_expected_unresolved`. -/
def isExpectedUnresolved (d : RiDiagnostic) (ctx : Context) : Except CanonicalError Bool :=
  if !d.unresolved then .ok false
  else do
    let disposition ← dispositionOf ctx d
    .ok (decide (disposition ≠ .gap))

/-- Whether the loop reports a diagnostic, and with which rule and evidence. -/
def promoted (byFact : Str → List RiEvidence) (ctx : Context) (d : RiDiagnostic) :
    Except CanonicalError (Option (Rule × SupportedEvidence)) :=
  match ruleOf d.code, supportFor d byFact with
  | some rule, some supported => do
    let expected ← isExpectedUnresolved d ctx
    .ok (if expected then none else some (rule, supported))
  | _, _ => .ok none

/-- One pass of the loop. The category of the rule takes the place of the
    category that was asked for. -/
def reviewDiagnostic (snapshotId : Str) (byFact : Str → List RiEvidence) (ctx : Context)
    (state : LoopState) (d : RiDiagnostic) : Except CanonicalError LoopState := do
  match ← promoted byFact ctx d with
  | none => .ok { state with omitted := state.omitted + 1 }
  | some (rule, supported) =>
    let finding ← findingOf snapshotId d rule supported
    .ok { state with
      category := some rule.category
      findings := state.findings ++ [finding] }

/-- The diagnostics that have a rule. Only these are loaded. -/
def ruled (rows : Rows) : List RiDiagnostic :=
  rows.diagnostics.filter (fun d => (ruleOf d.code).isSome)

/-- The context is only loaded if an unresolved reference has to be judged. -/
def reviewContext (rows : Rows) : Context :=
  if (ruled rows).any RiDiagnostic.unresolved then loadContext rows else Context.empty

/-- The loop over the diagnostics, from the category that was asked for. -/
def reviewAll (snapshot : Snapshot) (category : Option CategoryId) :
    Except CanonicalError LoopState :=
  (ruled snapshot.rows).foldlM
    (reviewDiagnostic snapshot.snapshotId (evidenceByFact snapshot.rows (ruled snapshot.rows))
      (reviewContext snapshot.rows))
    { category := category
      findings := []
      omitted := snapshot.rows.diagnostics.countP (fun d => (ruleOf d.code).isNone) }

/-- What `build` makes of the variables after its loop. -/
def respond (rows : Rows) (request : Request) (state : LoopState) : Response :=
  let findings := sortBy findingKey state.findings
  let categories := assessments rows findings (ruled rows)
  let states := categories.map (·.state)
  let matching := findings.filter
    (selected state.category request.severity request.diagnosticCode)
  let offset := request.offset.getD 0
  let limit := request.limit.getD matching.length
  { assessmentStatus := overallAssessmentStatus states
    categories := categories
    findings := (matching.drop offset).take limit
    pagination := { offset := offset, limit := limit, total := matching.length }
    summary := summarize findings states state.omitted }

/-- `build`. -/
def build (snapshot : Snapshot) (request : Request) : Except CanonicalError Response := do
  let state ← reviewAll snapshot request.category
  .ok (respond snapshot.rows request state)

end Building

end Review

end Partha
