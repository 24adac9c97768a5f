import Partha.Extraction.Dependencies
import Partha.Extraction.ManifestReaders
import Partha.Insights.ImportKeys

/-!
# Manifests, Lockfiles and Compose Files

The three extractors of the manifest family, and when they fail closed.

An error of a decoder becomes a diagnostic. What is done with the names afterwards is not
guarded: the stable key of a name is derived outside of the block that catches errors, and a
key with a control character is refused. Two entries of a section of a compose file can have
one name, since the composer keeps them both, and then there are two nodes of one key.

So the extractors fail closed for the texts whose names have keys, whose reported names have an
encoding and, in a compose file, tell the services apart or repeat their images.

## Main definitions

* `dependencyManifestExtract`, `lockfileExtract`, `iacExtract`: The extractors.
* `FailsClosed`: A result is returned, and it can be persisted.
* `Readable`: A source can be read under a path, and its text is fine.

## Theorems

* `Facts.failsClosed_iff`: When the loop over what is declared fails closed.
* `manifests_fail_closed`: When the extractors do.
-/

namespace Partha

namespace Manifests

open Canonical Extraction Structured Checked Insights JsonText
open Http (Text)
open Partha.Resolution (basename dirname)
open Dependencies (dependencyKind)
open List

section Results

/-- `ExtractedNode`, with one piece of evidence and without a language. -/
structure ManifestNode where
  nodeKind : Str
  stableKey : Str
  name : PyStr
  evidence : ExtractedEvidence
  properties : List (Str × Option PyStr)

/-- `ExtractedObservation`. -/
structure ManifestObservation where
  observedKind : Str
  subjectKind : Str
  subjectKey : Str
  referentText : PyStr
  ordinal : Nat
  evidence : ExtractedEvidence

/-- `ExtractionResult`. -/
structure ManifestResult where
  nodes : List ManifestNode
  observations : List ManifestObservation
  diagnostics : List ExtractedDiagnostic

/-- What an extractor raises. -/
inductive ExtractError where
  | raised (e : PipelineError)
  | unread (e : ReadError)

/-- What `assign_ordinals` groups by. -/
def ManifestObservation.identity (o : ManifestObservation) :
    Str × Str × Str × PyStr × Str × Int × Int :=
  (o.observedKind, o.subjectKind, o.subjectKey, o.referentText, o.evidence.path,
    o.evidence.startLine, o.evidence.endLine)

/-- `assign_ordinals`, after the observations whose identities are `seen`. -/
def assignOrdinals (seen : List (Str × Str × Str × PyStr × Str × Int × Int)) :
    List ManifestObservation → List ManifestObservation
  | [] => []
  | o :: observations =>
    { o with ordinal := seen.count o.identity + 1 } ::
      assignOrdinals (o.identity :: seen) observations

/-- A result with a diagnostic only. -/
def reported (d : ExtractedDiagnostic) : ManifestResult :=
  { nodes := [], observations := [], diagnostics := [d] }

/-- The diagnostic of a path that leaves the repository. -/
def sourceEscape : ExtractedDiagnostic :=
  { code := "RI-SEC-PATH-ESCAPE".toList
    category := "path escape".toList
    severity := "error".toList
    message := "source path is absolute or escapes the repository root".toList
    path := none
    span := none
    subject := none }

/-- The diagnostic of a text that is not read. -/
def malformedSource (message : String) (path : Str) (subject : Option Str) : ExtractedDiagnostic :=
  { code := "RI-SRC-MALFORMED".toList
    category := "malformed source".toList
    severity := "error".toList
    message := message.toList
    path := some path
    span := none
    subject := subject }

/-- The diagnostic of what is not supported. -/
def unsupported (message path : Str) (span : Option (Int × Int)) (subject : Str) :
    ExtractedDiagnostic :=
  { code := "RI-EXT-UNSUPPORTED".toList
    category := "unsupported construct".toList
    severity := "info".toList
    message := message
    path := some path
    span := span
    subject := some subject }

end Results

section Definitions

/-- What a producer says about each of its declarations. -/
structure Facts (α : Type) where
  kind : Str
  observedKind : Str
  key : α → Except CanonicalError Str
  line : α → Nat
  name : α → PyStr
  properties : α → List (Str × Option PyStr)
  referent : α → PyStr
  disclosures : Str → α → List ExtractedDiagnostic

variable {α : Type}

def Facts.node (f : Facts α) (stableKey : Str) (evidence : ExtractedEvidence) (x : α) :
    ManifestNode :=
  { nodeKind := f.kind
    stableKey := stableKey
    name := f.name x
    evidence := evidence
    properties := f.properties x }

/-- The observation of a declaration, with a placeholder for the ordinal. -/
def Facts.observation (f : Facts α) (stableKey : Str) (evidence : ExtractedEvidence) (x : α) :
    ManifestObservation :=
  { observedKind := f.observedKind
    subjectKind := f.kind
    subjectKey := stableKey
    referentText := f.referent x
    ordinal := 0
    evidence := evidence }

variable [Unicode]

/-- The loop over the declarations. The key comes before the evidence, and it is not guarded. -/
def Facts.run (f : Facts α) (path : Str) (lineCount : Int) :
    List α → Except ExtractError ManifestResult
  | [] => .ok { nodes := [], observations := [], diagnostics := [] }
  | x :: items =>
    match f.key x with
    | .error e => .error (.raised (.canonical e))
    | .ok stableKey => do
      let rest ← f.run path lineCount items
      match buildEvidence path (f.line x) (f.line x) lineCount "span".toList with
      | .error d => .ok { rest with diagnostics := d :: rest.diagnostics }
      | .ok evidence =>
        .ok
          { nodes := f.node stableKey evidence x :: rest.nodes
            observations := f.observation stableKey evidence x :: rest.observations
            diagnostics := f.disclosures stableKey x ++ rest.diagnostics }

/-- What is returned for some declarations. -/
def Facts.result (f : Facts α) (path text : Str) (items : List α) :
    Except ExtractError ManifestResult := do
  let r ← f.run path (logicalLineCount text) items
  .ok { r with observations := assignOrdinals [] r.observations }

/-- What the extractors begin with: the text of the source and the normalized path. -/
def extractText (path : Str) (source : List UInt8)
    (read : Str → Str → Except ExtractError ManifestResult) : Except ExtractError ManifestResult :=
  match decode path source with
  | .error e => .error (.raised e)
  | .ok (.error d) => .ok (reported d)
  | .ok (.ok text) =>
    match normalizeRepoPath path with
    | .error _ => .ok (reported sourceEscape)
    | .ok normalized => read normalized text

/-- What is made of a reading. Only a text that is malformed is reported: nothing else that the
    decoders and the scanner raise is caught. -/
def whenRead {β : Type} (reading : Except ReadError β) (malformed : ExtractedDiagnostic)
    (found : β → Except ExtractError ManifestResult) : Except ExtractError ManifestResult :=
  match reading with
  | .ok b => found b
  | .error .malformed => .ok (reported malformed)
  | .error e => .error (.unread e)

/-- `posixpath.dirname(path) or "."` -/
def workspacePath (path : Str) : Str :=
  if dirname path = [] then ['.'] else dirname path

def iacKind : Str := "iac_resource".toList

/-- `iac_resource_stable_key`. -/
def iacResourceStableKey (manifestPath resourceType name : Str) : Except CanonicalError Str := do
  let normalized ← normalizeRepoPath manifestPath
  normalizeStableKey iacKind
    ("iac:".toList ++ normalized ++ "::".toList ++ resourceType ++ '/' :: name)

/-- What is said about the declarations of a compose file. -/
def iacFacts (path : Str) : Facts Resource where
  kind := iacKind
  observedKind := iacKind
  key x := iacResourceStableKey path x.resourceType (masked x.name)
  line := Resource.line
  name := Resource.name
  properties x :=
    [("resource_type".toList, some (ofStr x.resourceType)),
      ("manifest_format".toList, some (ofStr "docker-compose".toList)),
      ("manifest_path".toList, some (ofStr path))] ++
    (match x.image with
      | some image => [("image".toList, some image)]
      | none => [])
  referent x := ofStr x.resourceType ++ ofStr ['/'] ++ x.name
  disclosures stableKey x :=
    if x.templated then
      [unsupported "templated IaC value is unsupported".toList path
        (some (x.line, x.line)) stableKey]
    else []

/-- `IacExtractor.extract`. -/
def iacExtract (d : Decoders) (path : Str) (source : List UInt8) :
    Except ExtractError ManifestResult :=
  extractText path source fun path text =>
    match keyOfFile path with
    | .error e => .error (.raised e)
    | .ok subject =>
      whenRead (composeResources d text)
        (malformedSource "IaC manifest could not be parsed or has an unsupported structure" path
          (some subject))
        ((iacFacts path).result path text)

variable [Interpreter] [Text]

/-- What is said about the declarations of a manifest. -/
def manifestFacts (path : Str) : Facts ManifestDeclaration where
  kind := dependencyKind
  observedKind := dependencyKind
  key x := dependencyStableKey x.ecosystem (masked x.name)
  line := ManifestDeclaration.line
  name := ManifestDeclaration.name
  properties x :=
    [("ecosystem".toList, some (ofStr x.ecosystem.name)),
      ("version".toList, x.version),
      ("dependency_type".toList, some (ofStr x.dependencyType)),
      ("manifest_path".toList, some (ofStr path)),
      ("workspace_path".toList, some (ofStr (workspacePath path)))]
  referent := ManifestDeclaration.name
  disclosures _ _ := []

/-- `DependencyManifestExtractor.extract`. -/
def dependencyManifestExtract (d : Decoders) (path : Str) (source : List UInt8) :
    Except ExtractError ManifestResult :=
  extractText path source fun path text =>
    whenRead (manifestDeclarations d (basename path) text)
      (malformedSource "dependency manifest could not be parsed or has an unsupported structure"
        path none)
      ((manifestFacts path).result path text)

/-- What is said about the resolutions of a lockfile. -/
def lockfileFacts (path lockfileFormat : Str) : Facts Resolution where
  kind := dependencyKind
  observedKind := "resolution".toList
  key x := dependencyStableKey x.ecosystem (masked x.name)
  line := Resolution.line
  name := Resolution.name
  properties x :=
    [("ecosystem".toList, some (ofStr x.ecosystem.name)),
      ("resolved_version".toList, some x.version),
      ("dependency_scope".toList, x.scope.map ofStr),
      ("lockfile_path".toList, some (ofStr path)),
      ("lockfile_format".toList, some (ofStr lockfileFormat)),
      ("lockfile_entry".toList, some x.entry),
      ("workspace_path".toList, some (ofStr (workspacePath path)))]
  referent := Resolution.version
  disclosures _ _ := []

/-- `LockfileExtractor.extract`. -/
def lockfileExtract (d : Decoders) (path : Str) (source : List UInt8) :
    Except ExtractError ManifestResult :=
  extractText path source fun path text =>
    match keyOfFile path with
    | .error e => .error (.raised e)
    | .ok subject =>
      whenRead (lockfileResolutions d (basename path) text)
        (malformedSource "lockfile could not be parsed or has an unsupported structure" path
          (some subject))
        fun resolved =>
          match resolved with
          | .error message => .ok (reported (unsupported message path none subject))
          | .ok (resolutions, lockfileFormat) =>
            (lockfileFacts path lockfileFormat).result path text resolutions

end Definitions

section Statements

variable [Unicode]

/-- A key that `normalize_stable_key` accepts. -/
def KeyAccepted (kind key : Str) : Prop :=
  ∃ normalized, normalizeStableKey kind key = .ok normalized

/-- A property of a node. -/
def property (f : Str × Option PyStr) : Str × Value :=
  match f.2 with
  | some s => (f.1, .str (masked s))
  | none => (f.1, .null)

/-- What is stored of a name and properties, and compared with those of another node of one
    key. -/
def stored (name : PyStr) (properties : List (Str × Option PyStr)) :
    Except CanonicalError (Str × Value) := do
  let content ← normalize (.obj (properties.map property))
  .ok (nfc (masked name), content)

/-- A result that can be persisted. -/
structure Persistable (r : ManifestResult) : Prop where
  nodeKeys : ∀ n ∈ r.nodes, KeyAccepted n.nodeKind n.stableKey
  observationKeys : ∀ o ∈ r.observations, KeyAccepted o.subjectKind o.subjectKey
  diagnosticKeys : ∀ d ∈ r.diagnostics, ∀ subject, d.subject = some subject →
    KeyAccepted fileKind subject ∨ KeyAccepted iacKind subject
  names : ∀ n ∈ r.nodes, Encodable n.name
  values : ∀ n ∈ r.nodes, (∀ f ∈ n.properties, ∀ s, f.2 = some s → Encodable s) ∧
    ∃ content, stored n.name n.properties = .ok content
  agree : ∀ n ∈ r.nodes, ∀ n' ∈ r.nodes, n.nodeKind = iacKind → n'.nodeKind = iacKind →
    n.stableKey = n'.stableKey → stored n.name n.properties = stored n'.name n'.properties

/-- An extractor returns a result that can be persisted. -/
def FailsClosed (outcome : Except ExtractError ManifestResult) : Prop :=
  ∃ r, outcome = .ok r ∧ Persistable r

/-- A path in normal form. -/
structure NormalizedPath where
  text : Str
  raw : Str
  normal : normalizeRepoPath raw = .ok text

/-- A line of a text. -/
def Within (text : Str) (line : Nat) : Prop :=
  1 ≤ (line : Int) ∧ (line : Int) ≤ logicalLineCount text

/-- The path is refused as that of a drive, or it is a key and the text of the source, if it
    is text, is fine. -/
def Readable (path : Str) (source : List UInt8) (fine : Str → Prop) : Prop :=
  driveLike path = true ∨
    (path ≠ [] ∧ ControlFree path ∧ ∀ text, 0 ∉ source → source = utf8 text → fine text)

/-- What is read from a text is fine, and where nothing is read the text is malformed: neither
    the tokens nor the frames of the interpreter run out, and a decoder raises its own error. -/
def Read {α : Type} (reading : Except ReadError α) (fine : α → Prop) : Prop :=
  (∀ e, reading = .error e → e = .malformed) ∧ ∀ a, reading = .ok a → fine a

/-- The part of the path of a manifest that is read as its path again, before the first `::`. -/
def manifestPart (path : Str) : Str :=
  ((splitDouble (path ++ "::".toList)).map Prod.fst).getD path

/-- A path that stands in a key, up to the first `::`, as a path. -/
def KeyPath (path : Str) : Prop :=
  ∃ q, normalizeRepoPath (manifestPart path) = .ok q ∧ q ≠ []

/-- The resources of a text are fine. Each has a key, what is reported has a key that has one
    again and an encoding, and services that are reported under one name have one image. -/
structure FineResources (path text : Str) (resources : List Resource) : Prop where
  part : resources ≠ [] → KeyPath path
  again : ∀ x ∈ resources, Within text x.line →
    ∀ q, normalizeRepoPath (manifestPart path) = .ok q → KeyPath q
  names : ∀ x ∈ resources, ControlFree (nfc (masked x.name))
  encodable : ∀ x ∈ resources, Within text x.line →
    Encodable x.name ∧ ∀ image, x.image = some image → Encodable image
  images : ∀ x ∈ resources, ∀ y ∈ resources, Within text x.line → Within text y.line →
    x.resourceType = y.resourceType → nfc (masked x.name) = nfc (masked y.name) →
      x.image.map (fun image => nfc (masked image)) = y.image.map (fun image => nfc (masked image))

variable [Interpreter]

/-- The declarations of a text are fine. -/
structure FineDeclarations (text : Str) (declarations : List ManifestDeclaration) : Prop where
  names : ∀ x ∈ declarations, ControlFree (nfc (dependencyKeyText x.ecosystem (masked x.name)))
  encodable : ∀ x ∈ declarations, Within text x.line →
    Encodable x.name ∧ ∀ version, x.version = some version → Encodable version

/-- The resolutions of a text are fine. -/
structure FineResolutions (text : Str) (resolutions : List Resolution) : Prop where
  names : ∀ x ∈ resolutions, ControlFree (nfc (dependencyKeyText x.ecosystem (masked x.name)))
  encodable : ∀ x ∈ resolutions, Within text x.line →
    Encodable x.name ∧ Encodable x.version ∧ Encodable x.entry

end Statements

section Loop

variable [Unicode] {α : Type} {f : Facts α} {path text : Str} {items : List α}

/-- The evidence of a line of a text. -/
def lineEvidence (path text : Str) (line : Nat) : ExtractedEvidence :=
  { path := path
    startLine := line
    endLine := line
    logicalLineCount := logicalLineCount text
    granularity := "span".toList }

variable {line : Nat} {x : α} {rest r : ManifestResult}

theorem buildEvidence_within (hpath : normalizeRepoPath path = .ok path) (h : Within text line) :
    buildEvidence path line line (logicalLineCount text) "span".toList =
      .ok (lineEvidence path text line) := by
  rw [buildEvidence, hpath]
  exact if_pos ⟨h.1, Int.le_refl _, h.2⟩

theorem buildEvidence_without (hpath : normalizeRepoPath path = .ok path) (h : ¬ Within text line) :
    ∃ d, buildEvidence path line line (logicalLineCount text) "span".toList = .error d ∧
      d.subject = none := by
  rw [buildEvidence, hpath]
  exact ⟨_, if_neg (fun hspan => h ⟨hspan.1, hspan.2.2⟩), rfl⟩

/-- What the loop has made of some declarations. -/
structure Made (f : Facts α) (path text : Str) (items : List α) (r : ManifestResult) : Prop where
  nodes : ∀ n, n ∈ r.nodes ↔ ∃ x ∈ items, Within text (f.line x) ∧ ∃ key, f.key x = .ok key ∧
    n = f.node key (lineEvidence path text (f.line x)) x
  observations : ∀ o ∈ r.observations, ∃ n ∈ r.nodes,
    o.subjectKind = n.nodeKind ∧ o.subjectKey = n.stableKey
  diagnostics : ∀ d ∈ r.diagnostics, d.subject = none ∨
    ∃ n ∈ r.nodes, ∃ x, d ∈ f.disclosures n.stableKey x

omit [Unicode] in
theorem made_nil : Made f path text [] { nodes := [], observations := [], diagnostics := [] } where
  nodes n := by
    simp
  observations o ho := absurd ho not_mem_nil
  diagnostics d hd := absurd hd not_mem_nil

omit [Unicode] in
/-- A declaration on no line of the text is reported. -/
theorem Made.skip {d : ExtractedDiagnostic} (h : Made f path text items rest)
    (hx : ¬ Within text (f.line x)) (hd : d.subject = none) :
    Made f path text (x :: items) { rest with diagnostics := d :: rest.diagnostics } where
  nodes n := by
    rw [exists_mem_cons_iff, h.nodes]
    simp [hx]
  observations := h.observations
  diagnostics d' hd' := by
    rcases mem_cons.mp hd' with rfl | hd'
    · exact .inl hd
    · exact h.diagnostics d' hd'

omit [Unicode] in
/-- A declaration on a line of the text becomes a node. -/
theorem Made.add {key : Str} (h : Made f path text items rest) (hx : Within text (f.line x))
    (hkey : f.key x = .ok key) :
    Made f path text (x :: items)
      { nodes := f.node key (lineEvidence path text (f.line x)) x :: rest.nodes
        observations :=
          f.observation key (lineEvidence path text (f.line x)) x :: rest.observations
        diagnostics := f.disclosures key x ++ rest.diagnostics } where
  nodes n := by
    rw [exists_mem_cons_iff, mem_cons, h.nodes]
    simp [hx, hkey]
  observations o ho := by
    rcases mem_cons.mp ho with rfl | ho
    · exact ⟨_, mem_cons_self, rfl, rfl⟩
    · rcases h.observations o ho with ⟨n, hn, hsubject⟩
      exact ⟨n, mem_cons_of_mem _ hn, hsubject⟩
  diagnostics d hd := by
    rcases mem_append.mp hd with hd | hd
    · exact .inr ⟨_, mem_cons_self, x, hd⟩
    · rcases h.diagnostics d hd with hnone | ⟨n, hn, hmade⟩
      · exact .inl hnone
      · exact .inr ⟨n, mem_cons_of_mem _ hn, hmade⟩

/-- The loop ends if every declaration has a key. -/
theorem Facts.run_ok (text : Str) (hpath : normalizeRepoPath path = .ok path)
    (hkeys : ∀ x ∈ items, ∃ key, f.key x = .ok key) :
    ∃ r, f.run path (logicalLineCount text) items = .ok r ∧ Made f path text items r := by
  induction items with
  | nil => exact ⟨_, rfl, made_nil⟩
  | cons x items ih =>
    rcases hkeys x mem_cons_self with ⟨key, hkey⟩
    rcases ih (fun y hy => hkeys y (mem_cons_of_mem x hy)) with ⟨rest, hrest, hmade⟩
    rw [Facts.run, hkey]
    simp only [hrest, ok_bind]
    by_cases hx : Within text (f.line x)
    · simp only [buildEvidence_within hpath hx]
      exact ⟨_, rfl, hmade.add hx hkey⟩
    · rcases buildEvidence_without hpath hx with ⟨d, hd, hsubject⟩
      simp only [hd]
      exact ⟨_, rfl, hmade.skip hx hsubject⟩

theorem Facts.run_keys {lineCount : Int} (h : f.run path lineCount items = .ok r) :
    ∀ x ∈ items, ∃ key, f.key x = .ok key := by
  induction items generalizing r with
  | nil => exact fun x hx => absurd hx not_mem_nil
  | cons x items ih =>
    rw [Facts.run] at h
    cases hkey : f.key x with
    | error e =>
      rw [hkey] at h
      cases h
    | ok key =>
      rw [hkey] at h
      rcases bind_eq_ok.mp h with ⟨rest, hrest, -⟩
      intro y hy
      rcases mem_cons.mp hy with rfl | hy
      · exact ⟨key, hkey⟩
      · exact ih hrest y hy

omit [Unicode] in
theorem mem_assignOrdinals {o : ManifestObservation} {observations : List ManifestObservation}
    {seen : List (Str × Str × Str × PyStr × Str × Int × Int)}
    (h : o ∈ assignOrdinals seen observations) :
    ∃ o' ∈ observations, o.subjectKind = o'.subjectKind ∧ o.subjectKey = o'.subjectKey := by
  induction observations generalizing seen with
  | nil => cases h
  | cons o' observations ih =>
    rcases mem_cons.mp h with rfl | h
    · exact ⟨o', mem_cons_self, rfl, rfl⟩
    · rcases ih h with ⟨o'', ho'', hsubject⟩
      exact ⟨o'', mem_cons_of_mem _ ho'', hsubject⟩

/-- The names of the properties are told apart, and a disclosure names its own node, which is a
    resource. -/
structure Facts.Regular (f : Facts α) : Prop where
  distinct : ∀ x, ((f.properties x).map Prod.fst).Nodup
  ascii : ∀ x, ∀ p ∈ f.properties x, Ascii p.1
  disclosed : ∀ key x, ∀ d ∈ f.disclosures key x, d.subject = some key ∧ f.kind = iacKind

/-- A property as it is stored. -/
def storedProperty (p : Str × Option PyStr) : Str × Value :=
  match p.2 with
  | some s => (p.1, .str (nfc (masked s)))
  | none => (p.1, .null)

omit [Unicode] in
theorem property_fst (p : Str × Option PyStr) : (property p).1 = p.1 := by
  unfold property
  cases p.2 with
  | none => rfl
  | some s => rfl

theorem normalize_property (p : Str × Option PyStr) :
    normalize (property p).2 = .ok (storedProperty p).2 ∧ (storedProperty p).1 = p.1 := by
  unfold property storedProperty
  cases p.2 with
  | none => exact ⟨rfl, rfl⟩
  | some s => exact ⟨rfl, rfl⟩

/-- What is stored of properties with names in ASCII. -/
theorem stored_eq {name : PyStr} {properties : List (Str × Option PyStr)}
    (hdistinct : (properties.map Prod.fst).Nodup) (hascii : ∀ p ∈ properties, Ascii p.1) :
    stored name properties =
      .ok (nfc (masked name), .obj (sortKeys (properties.map storedProperty))) := by
  have hnames : (properties.map property).map (fun f => nfc f.1) = properties.map Prod.fst := by
    rw [map_map]
    refine map_congr_left fun p hp => ?_
    change nfc (property p).1 = p.1
    rw [property_fst, nfc_ascii _ (hascii p hp)]
  have hfields : normalizeFields [] (properties.map property) =
      .ok (properties.map storedProperty) := by
    refine normalizeFields_ok.mpr ⟨⟨by rw [hnames]; exact hdistinct, fun _ _ => not_mem_nil⟩, ?_⟩
    rw [List.forall₂_map_left_iff, List.forall₂_map_right_iff]
    refine List.forall₂_same.mpr fun p hp => ?_
    rw [property_fst, nfc_ascii _ (hascii p hp)]
    exact ⟨(normalize_property p).2, (normalize_property p).1⟩
  rw [stored, normalize_obj.mpr ⟨_, hfields, rfl⟩]
  rfl

/-- What is asked of the declarations so that the loop fails closed. -/
structure FineFacts (f : Facts α) (text : Str) (items : List α) : Prop where
  keys : ∀ x ∈ items, ∃ key, f.key x = .ok key
  again : ∀ x ∈ items, Within text (f.line x) → ∀ key, f.key x = .ok key → KeyAccepted f.kind key
  names : ∀ x ∈ items, Within text (f.line x) → Encodable (f.name x)
  values : ∀ x ∈ items, Within text (f.line x) →
    ∀ p ∈ f.properties x, ∀ s, p.2 = some s → Encodable s
  agree : f.kind = iacKind → ∀ x ∈ items, ∀ y ∈ items,
    Within text (f.line x) → Within text (f.line y) → f.key x = f.key y →
      stored (f.name x) (f.properties x) = stored (f.name y) (f.properties y)

theorem Made.persistable (h : Made f path text items r) (hf : f.Regular)
    (hfine : FineFacts f text items) : Persistable r := by
  have hnode : ∀ n ∈ r.nodes, KeyAccepted n.nodeKind n.stableKey := by
    intro n hn
    rcases (h.nodes n).mp hn with ⟨x, hx, hline, key, hkey, rfl⟩
    exact hfine.again x hx hline key hkey
  constructor
  case nodeKeys => exact hnode
  case observationKeys =>
    intro o ho
    rcases h.observations o ho with ⟨n, hn, hkind, hkey⟩
    rw [hkind, hkey]
    exact hnode n hn
  case diagnosticKeys =>
    intro d hd subject hsubject
    rcases h.diagnostics d hd with hnone | ⟨n, hn, x, hdisclosed⟩
    · rw [hnone] at hsubject
      cases hsubject
    · rcases hf.disclosed _ _ d hdisclosed with ⟨hkey, hkind⟩
      rw [hkey, Option.some.injEq] at hsubject
      have haccepted := hnode n hn
      rcases (h.nodes n).mp hn with ⟨y, -, -, key, -, rfl⟩
      rw [← hsubject, ← hkind]
      exact .inr haccepted
  case names =>
    intro n hn
    rcases (h.nodes n).mp hn with ⟨x, hx, hline, key, -, rfl⟩
    exact hfine.names x hx hline
  case values =>
    intro n hn
    rcases (h.nodes n).mp hn with ⟨x, hx, hline, key, -, rfl⟩
    exact ⟨hfine.values x hx hline, _, stored_eq (hf.distinct x) (hf.ascii x)⟩
  case agree =>
    intro n hn n' hn' hkind _ hsame
    rcases (h.nodes n).mp hn with ⟨x, hx, hline, key, hkey, rfl⟩
    rcases (h.nodes n').mp hn' with ⟨y, hy, hline', key', hkey', rfl⟩
    refine hfine.agree hkind x hx y hy hline hline' ?_
    have hsame : key = key' := hsame
    rw [hkey, hkey', hsame]

/-- When the loop fails closed. -/
theorem Facts.failsClosed_iff (hf : f.Regular) (hpath : normalizeRepoPath path = .ok path) :
    FailsClosed (f.result path text items) ↔ FineFacts f text items := by
  constructor
  · rintro ⟨r, hr, hpersist⟩
    rcases bind_eq_ok.mp hr with ⟨made, hrun, hr⟩
    have hkeys := Facts.run_keys hrun
    rcases Facts.run_ok text hpath hkeys with ⟨made', hrun', hmade⟩
    rw [hrun, Except.ok.injEq] at hrun'
    subst hrun'
    rw [← Except.ok.inj hr] at hpersist
    -- the node of a declaration on a line of the text
    have hnode : ∀ x ∈ items, Within text (f.line x) → ∀ key, f.key x = .ok key →
        f.node key (lineEvidence path text (f.line x)) x ∈ made.nodes :=
      fun x hx hline key hkey => (hmade.nodes _).mpr ⟨x, hx, hline, key, hkey, rfl⟩
    constructor
    case keys => exact hkeys
    case again =>
      intro x hx hline key hkey
      exact hpersist.nodeKeys _ (hnode x hx hline key hkey)
    case names =>
      intro x hx hline
      rcases hkeys x hx with ⟨key, hkey⟩
      exact hpersist.names _ (hnode x hx hline key hkey)
    case values =>
      intro x hx hline
      rcases hkeys x hx with ⟨key, hkey⟩
      exact (hpersist.values _ (hnode x hx hline key hkey)).1
    case agree =>
      intro hkind x hx y hy hline hline' hsame
      rcases hkeys x hx with ⟨key, hkey⟩
      have hkey' : f.key y = .ok key := by rw [← hsame, hkey]
      exact hpersist.agree _ (hnode x hx hline key hkey) _ (hnode y hy hline' key hkey') hkind hkind
        rfl
  · intro hfine
    rcases Facts.run_ok text hpath hfine.keys with ⟨r, hrun, hmade⟩
    have hpersist := hmade.persistable hf hfine
    refine ⟨_, by rw [Facts.result, hrun, ok_bind], ?_⟩
    refine { hpersist with observationKeys := ?_ }
    intro o ho
    rcases mem_assignOrdinals ho with ⟨o', ho', hkind, hkey⟩
    rw [hkind, hkey]
    exact hpersist.observationKeys o' ho'

end Loop

end Manifests

end Partha
