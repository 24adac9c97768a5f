import Partha.Insights.ImportDispositions

/-!
# Unresolved Relationships

What an unresolved reference of a sealed snapshot is, and how the readers of a
snapshot load what they need to judge it.

A reference is judged by its observation. An import speaks for itself, and a
name that is called, implemented, injected or routed to is judged by the module
its file imported it from. `load_unresolved_relationship_context` collects what
every file imports by the local names. It reads the bindings without an order,
and where a file binds one name twice the first binding that is read stays.

A snapshot is given by its rows as one reading returns them. The columns are the
ones that the readers modelled here use. The `details` of a diagnostic are
reduced to the `observation_id` in them, which every writer fills with a string.

## Main definitions

* `Rows`: The rows of a sealed snapshot.
* `Context`: `UnresolvedRelationshipContext`.
* `loadContext`: `load_unresolved_relationship_context`.
* `classifyUnresolved`: `classify_unresolved`.
* `splitUnresolved`: `split_unresolved_relationships`.
* `architectureItems`: The diagnostics that the Architecture view shows.
-/

namespace Partha

namespace Insights

open Canonical Extraction

structure RiObservation where
  id : Nat
  observationId : Str
  observedKind : Str
  referentText : Option Str
  deriving DecidableEq, Repr

structure RiNode where
  id : Nat
  nodeKind : Str
  stableKey : Str
  deriving DecidableEq, Repr

/-- The fact that an evidence row belongs to. A check constraint allows one. -/
inductive Parent where
  | node (ref : Nat)
  | edge (ref : Nat)
  | observation (ref : Nat)
  deriving DecidableEq, Repr

inductive Granularity where
  | span
  | file
  deriving DecidableEq, Repr

structure RiEvidence where
  id : Nat
  parent : Parent
  path : Str
  startLine : Nat
  endLine : Nat
  granularity : Granularity
  extractor : Str
  extractorVersion : Str
  deriving DecidableEq, Repr

/-- The severities that the extractors and the resolver store. -/
inductive StoredSeverity where
  | fatal
  | error
  | warning
  | info
  deriving DecidableEq, Repr

structure RiDiagnostic where
  id : Nat
  code : Str
  severity : StoredSeverity
  message : Str
  path : Option Str
  spanStartLine : Option Nat
  spanEndLine : Option Nat
  producer : Str
  subjectKey : Option Str
  objectKey : Option Str
  observationId : Option Str
  deriving DecidableEq, Repr

/-- The rows of one sealed snapshot, in the order in which they are returned. -/
structure Rows where
  nodes : List RiNode
  observations : List RiObservation
  evidence : List RiEvidence
  diagnostics : List RiDiagnostic

/-- `RI_RES_UNRESOLVED`. -/
def riResUnresolved : Str := "RI-RES-UNRESOLVED".toList

/-- `RI_RES_AMBIGUOUS`. -/
def riResAmbiguous : Str := "RI-RES-AMBIGUOUS".toList

def RiDiagnostic.unresolved (d : RiDiagnostic) : Bool :=
  d.code = riResUnresolved

/-- `_REFERENCE_KINDS`. -/
def referenceKinds : List Str :=
  ["call", "implements", "injects", "route_handler"].map String.toList

def importBinding : Str := "import_binding".toList

/-- `_JS_AMBIENT_GLOBAL_NAMES`. -/
def jsAmbientGlobalNames : List Str :=
  ["describe", "it", "test", "expect", "beforeAll", "beforeEach", "afterAll", "afterEach", "vi",
    "jest", "waitFor", "within", "fireEvent", "fetch", "structuredClone", "queueMicrotask",
    "requestAnimationFrame", "cancelAnimationFrame", "setTimeout", "clearTimeout", "setInterval",
    "clearInterval", "alert", "confirm", "prompt", "getComputedStyle", "matchMedia",
    "requestIdleCallback", "atob", "btoa"].map String.toList

/-- `SHADOWED_CALL_MESSAGE`. -/
def shadowedCallMessage : Str :=
  "calls target is shadowed by a local binding".toList

/-- `UnresolvedDisposition`. -/
inductive Disposition where
  | external
  | localBinding
  | inRepoTargetExists
  | nonCodeAsset
  | gap
  deriving DecidableEq, Repr

/-- `UnresolvedRelationshipContext`. The import bindings are kept in the order
    in which they were read, and the first one of a local name counts. -/
structure Context where
  observedKindByObservation : List (Str × Str)
  referentByObservation : List (Str × Option Str)
  importSpecifierByLocalName : List ((Str × Str) × Str)
  declaredDependencyKeys : List Str
  filePaths : List Str
  directoryPaths : List Str

def Context.empty : Context :=
  { observedKindByObservation := []
    referentByObservation := []
    importSpecifierByLocalName := []
    declaredDependencyKeys := []
    filePaths := []
    directoryPaths := [] }

/-- `referent.split("|", 2)`: the specifier and the local name of a binding. -/
def bindingParts (referent : Str) : Option (Str × Str) :=
  match referent.dropWhile (fun c => c ≠ '|') with
  | [] => none
  | _ :: rest => match rest.dropWhile (fun c => c ≠ '|') with
    | [] => none
    | _ :: name =>
      if before '|' referent = [] ∨ name = [] then none else some (before '|' referent, name)

/-- The referent of an import binding, by the key of its row. -/
def bindingReferent (observations : List RiObservation) (pk : Nat) : Option Str :=
  (observations.find? (fun o => o.id = pk)).bind (fun o =>
    if o.observedKind = importBinding ∧ o.referentText ≠ some [] then o.referentText else none)

/-- What one evidence row of the join says: a file, a local name and where the
    name comes from. -/
def bindingOf (observations : List RiObservation) (e : RiEvidence) : Option ((Str × Str) × Str) :=
  match e.parent with
  | .observation pk =>
    if e.path = [] then none
    else do
      let referent ← bindingReferent observations pk
      let parts ← bindingParts referent
      some ((e.path, parts.2), parts.1)
  | _ => none

/-- The paths that were scanned: the file nodes, and whatever left evidence. -/
def scannedPaths (rows : Rows) : List Str :=
  (rows.nodes.filter (fun n => n.nodeKind = "file".toList)).filterMap
      (fun n => stripPrefix "file:".toList n.stableKey) ++
    (rows.evidence.map (·.path)).filter (fun path => path ≠ [])

/-- The directories above a path. -/
def directoriesOf (path : Str) : List Str :=
  let parts := splitOn '/' path
  (List.range (parts.length - 1)).map (fun count => joinWith '/' (parts.take (count + 1)))

/-- `load_unresolved_relationship_context`. A later row of one observation would
    overwrite an earlier one. -/
def loadContext (rows : Rows) : Context :=
  { observedKindByObservation :=
      (rows.observations.map (fun o => (o.observationId, o.observedKind))).reverse
    referentByObservation :=
      (rows.observations.map (fun o => (o.observationId, o.referentText))).reverse
    importSpecifierByLocalName := rows.evidence.filterMap (bindingOf rows.observations)
    declaredDependencyKeys :=
      (rows.nodes.filter (fun n => n.nodeKind = "dependency".toList)).map (·.stableKey)
    filePaths := scannedPaths rows
    directoryPaths := (scannedPaths rows).flatMap directoriesOf }

variable [Unicode] [Interpreter]

/-- `_is_platform_reference`. -/
def isPlatformReference (name sourcePath : Str) : Bool :=
  if isPython sourcePath then Interpreter.builtinNames.elem name
  else if ([".ts", ".tsx", ".js", ".jsx", ".mjs", ".cjs"].map String.toList).any
      (fun extension => endsWith sourcePath extension) then
    jsAmbientGlobalNames.elem name
  else false

/-- What a specifier is, once it is known which one to judge. -/
def judgeSpecifier (specifier sourcePath : Str) (ctx : Context) :
    Except CanonicalError Disposition := do
  if ← isRecognizedExternalImport specifier sourcePath ctx.declaredDependencyKeys then
    .ok .external
  else if isNonCodeAssetImport specifier sourcePath then .ok .nonCodeAsset
  else if resolvesToInRepoFile specifier sourcePath ctx.filePaths ctx.directoryPaths then
    .ok .inRepoTargetExists
  else .ok .gap

/-- `classify_unresolved`. -/
def classifyUnresolved (sourcePath observationId : Option Str) (ctx : Context)
    (message : Option Str) : Except CanonicalError Disposition :=
  let path := sourcePath.getD []
  let observation := observationId.getD []
  if path = [] then .ok .gap
  else if message = some shadowedCallMessage then .ok .localBinding
  else
    let kind := ctx.observedKindByObservation.lookup observation
    let referent := ((ctx.referentByObservation.lookup observation).join).getD []
    if referent = [] then .ok .gap
    else if kind = some "import".toList then judgeSpecifier referent path ctx
    else if kind.any (fun kind => referenceKinds.elem kind) then
      match ctx.importSpecifierByLocalName.lookup (path, referent) with
      | none =>
        if isPlatformReference referent path then .ok .external else .ok .gap
      | some specifier => judgeSpecifier specifier path ctx
    else .ok .gap

/-- The judgement of a diagnostic, as every reader asks for it. -/
def dispositionOf (ctx : Context) (d : RiDiagnostic) : Except CanonicalError Disposition :=
  classifyUnresolved d.path d.observationId ctx (some d.message)

/-- `UnresolvedRelationshipSplit`. -/
structure Split where
  inRepoGap : Nat
  externalReference : Nat
  localBinding : Nat
  nonCodeAsset : Nat
  deriving DecidableEq, Repr

def Split.empty : Split :=
  { inRepoGap := 0, externalReference := 0, localBinding := 0, nonCodeAsset := 0 }

/-- Count one more diagnostic in its bucket. -/
def Split.count (split : Split) : Disposition → Split
  | .external => { split with externalReference := split.externalReference + 1 }
  | .localBinding => { split with localBinding := split.localBinding + 1 }
  | .nonCodeAsset => { split with nonCodeAsset := split.nonCodeAsset + 1 }
  | .inRepoTargetExists => { split with inRepoGap := split.inRepoGap + 1 }
  | .gap => { split with inRepoGap := split.inRepoGap + 1 }

/-- `UnresolvedRelationshipSplit.total`. -/
def Split.total (split : Split) : Nat :=
  split.inRepoGap + split.externalReference + split.localBinding + split.nonCodeAsset

/-- `split_unresolved_relationships`. -/
def splitUnresolved (ctx : Context) (diagnostics : List RiDiagnostic) :
    Except CanonicalError Split :=
  diagnostics.foldlM (fun split d => do
    let disposition ← dispositionOf ctx d
    .ok (split.count disposition)) Split.empty

/-- `_split_unresolved_relationships` of Repository Insights. -/
def insightsSplit (rows : Rows) : Except CanonicalError Split :=
  let diagnostics := rows.diagnostics.filter RiDiagnostic.unresolved
  if diagnostics = [] then .ok Split.empty else splitUnresolved (loadContext rows) diagnostics

/-- `ARCHITECTURE_DIAGNOSTIC_CODES`. -/
def architectureDiagnosticCodes : List Str :=
  [riResUnresolved, riResAmbiguous]

/-- `ARCHITECTURE_FACT_DIAGNOSTIC_CODES`, the codes that `architecture_facts` loads. -/
def architectureFactDiagnosticCodes : List Str :=
  [riResUnresolved, riResAmbiguous, "RI-EXT-UNSUPPORTED".toList, "RI-SRC-MALFORMED".toList]

/-- `_is_architecture_relevant`. -/
def isArchitectureRelevant (ctx : Context) (d : RiDiagnostic) : Except CanonicalError Bool :=
  if !architectureDiagnosticCodes.elem d.code then .ok false
  else if !d.unresolved then .ok true
  else do
    let disposition ← dispositionOf ctx d
    .ok (!([Disposition.external, .localBinding, .nonCodeAsset].elem disposition))

/-- The list comprehension over the diagnostics that `architecture_facts` loaded. -/
def relevantItems (ctx : Context) : List RiDiagnostic → Except CanonicalError (List RiDiagnostic)
  | [] => .ok []
  | d :: diagnostics => do
    let relevant ← isArchitectureRelevant ctx d
    let rest ← relevantItems ctx diagnostics
    .ok (if relevant then d :: rest else rest)

/-- The diagnostics that the Architecture view shows. -/
def architectureItems (rows : Rows) : Except CanonicalError (List RiDiagnostic) :=
  relevantItems (loadContext rows)
    (rows.diagnostics.filter (fun d => architectureFactDiagnosticCodes.elem d.code))

end Insights

end Partha
