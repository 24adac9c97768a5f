import Mathlib.Data.Prod.Lex
import Partha.Analysis.SnapshotFacts
import Partha.Library.Checked
import Partha.Library.Grouping
import Partha.Resolution.Resolver

/-!
# The Architecture Model

`ArchitectureAnalyzer.build_architecture`, which draws the modules of a snapshot, the
dependencies that its relationships name, and the relationships between them.

A file is put into a module by its role, by its path if it defines symbols, or by its first
directory. An end of a relationship is mapped by four rules, and each can give several
modules: a dependency is a node itself, the repository stands for the modules below the
evidence, a file or a symbol for the modules of its path, and anything else for the modules
of its evidence, or of a directory. What cannot be mapped is a diagnostic.

`str.title` is a parameter. The texts that describe a node, the request flow and the summary
are left out, and so is an analyzer without a snapshot service.

## Main definitions

* `SealedFacts`: What sealing promises of the facts.
* `modulesFromFacts`: `_modules_from_facts`.
* `endpointIds`: `_architecture_endpoint_ids`.
* `mapFact`: What `_edges_for_modules` makes of one relationship.
* `buildArchitecture`: `build_architecture`.
-/

namespace Partha

namespace Architecture

open Canonical Extraction Facts
open Resolution (dirname basename)
open SortKeys (sortBy codePoints sortedSet)

section Constants

/-- `SourceRole`. -/
def sourceRoles : List Str :=
  ["entrypoint", "controller", "route", "service", "repository", "model", "dto", "interface",
    "enum", "utility", "configuration", "middleware", "test", "documentation", "unknown"].map
    String.toList

def unknownRole : Str := "unknown".toList

/-- `ROLE_TO_NODE_TYPE`. -/
def roleToNodeType : List (Str × Str) :=
  [("entrypoint", "entrypoint"), ("controller", "controller"), ("route", "route"),
    ("service", "service"), ("repository", "repository"), ("model", "models"),
    ("dto", "models"), ("interface", "models"), ("enum", "models"), ("utility", "utilities"),
    ("configuration", "configuration"), ("test", "utilities"), ("middleware", "middleware"),
    ("documentation", "shared-library"), ("unknown", "shared-library")].map
    (fun p => (p.1.toList, p.2.toList))

def sharedLibrary : Str := "shared-library".toList

/-- `_LAYER_BY_ROLE`. -/
def layerByRole : List (Str × Str) :=
  [("entrypoint", "presentation"), ("controller", "presentation"), ("route", "presentation"),
    ("service", "business-logic"), ("model", "domain"), ("dto", "domain"),
    ("interface", "domain"), ("enum", "domain"), ("repository", "infrastructure"),
    ("configuration", "infrastructure"), ("test", "infrastructure"),
    ("middleware", "infrastructure")].map (fun p => (p.1.toList, p.2.toList))

/-- `LAYER_ORDER`. -/
def layerOrder : List (Str × Nat) :=
  [("presentation", 0), ("business-logic", 1), ("domain", 2), ("infrastructure", 3),
    ("shared", 4), ("external", 5)].map (fun p => (p.1.toList, p.2))

/-- `LAYER_ORDER.get(layer, 99)`. -/
def orderOf (layer : Str) : Nat :=
  (layerOrder.lookup layer).getD 99

def external : Str := "external".toList

/-- `layer_for_role`. -/
def layerForRole (role : Str) : Str :=
  (layerByRole.lookup role).getD "shared".toList

/-- `ARCHITECTURE_RELATIONSHIP_EDGE_TYPES`. -/
def relationshipEdgeTypes : List (Str × Str) :=
  [("imports", "import"), ("calls", "calls"), ("routes_to", "api-call"),
    ("implements", "dependency"), ("depends_on", "dependency")].map
    (fun p => (p.1.toList, p.2.toList))

/-- A predicate that Architecture draws. -/
def isArchitecturePredicate (predicate : Str) : Bool :=
  (relationshipEdgeTypes.lookup predicate).isSome

/-- `SUPPORTED_MANIFEST_FILENAMES + SUPPORTED_LOCKFILE_FILENAMES`. -/
def nonModuleFilenames : List Str :=
  ["package.json", "pyproject.toml", "requirements.txt", "package-lock.json", "poetry.lock",
    "uv.lock"].map String.toList

def dependencyKind : Str := "dependency".toList

def repositoryKind : Str := "repository".toList

def moduleKind : Str := "module".toList

def dependsOn : Str := "depends_on".toList

def modulePrefix : Str := "module:".toList

def repoScopedCode : Str := "ARCH-REL-REPO-SCOPED".toList

def endpointUnmappedCode : Str := "ARCH-REL-ENDPOINT-UNMAPPED".toList

end Constants

section Model

structure RepositoryModule where
  id : Str
  name : Str
  role : Str
  layer : Str
  pathPrefix : Str
  files : List Str
  symbols : List Str
  deriving DecidableEq, Repr

structure ArchEvidence where
  snapshotId : Str
  factId : Str
  path : Str
  startLine : Nat
  endLine : Nat
  deriving DecidableEq, Repr

/-- The details of a diagnostic: those that were stored, or the relationship it is about. -/
inductive Details where
  | stored (observationId : Str)
  | relationship (factId predicate : Str)
  deriving DecidableEq, Repr

structure ArchitectureDiagnostic where
  code : Str
  category : Str
  severity : Insights.StoredSeverity
  message : Str
  path : Option Str
  startLine : Option Nat
  endLine : Option Nat
  subjectKey : Option Str
  objectKey : Option Str
  details : Option Details
  nodeIds : Option (List Str)
  deriving DecidableEq, Repr

inductive RelationshipState where
  | connected
  | noObservedRelationships
  | unresolved
  | notExtracted
  deriving DecidableEq, Repr

structure ArchNode where
  id : Str
  name : Str
  type : Str
  files : List Str
  dependencies : List Str
  dependents : List Str
  layer : Str
  relationshipState : RelationshipState
  deriving DecidableEq, Repr

inductive TruthClass where
  | resolved
  | inferred
  deriving DecidableEq, Repr

structure ArchEdge where
  id : Str
  source : Str
  target : Str
  type : Str
  label : Str
  predicate : Str
  truthClass : TruthClass
  evidence : List ArchEvidence
  deriving DecidableEq, Repr

structure ArchLayer where
  id : Str
  name : Str
  order : Nat
  nodes : List Str
  deriving DecidableEq, Repr

structure ArchModule where
  id : Str
  name : Str
  layer : Str
  nodeIds : List Str
  fileCount : Nat
  deriving DecidableEq, Repr

structure RepositoryRecord where
  id : Str
  name : Str
  deriving DecidableEq, Repr

structure ArchitectureResponse where
  repositoryId : Str
  repositoryName : Str
  detectedLayers : List ArchLayer
  nodes : List ArchNode
  edges : List ArchEdge
  modules : List ArchModule
  relationshipSnapshotId : Str
  diagnostics : List ArchitectureDiagnostic
  deriving DecidableEq, Repr

/-- What is raised: a key that is refused, or a model that does not validate. -/
inductive ArchitectureError where
  | canonical (e : CanonicalError)
  | validation
  deriving DecidableEq

end Model

/-- The facts of a sealed snapshot. Sealing checks that a dependency has a dependency key,
    that the id of an edge is a hash and that an edge has evidence. Files are classified by
    `RoleClassifier`, and the resolver makes no edge that starts at a dependency. -/
structure SealedFacts extends ArchitectureSnapshotFacts where
  dependency_keys : ∀ node ∈ nodes, node.nodeKind = dependencyKind →
    ∃ name, node.stableKey = "dep:".toList ++ name
  edge_ids : ∀ edge ∈ edges, ∃ digest, edge.edgeId = "edge:sha256:".toList ++ digest ∧ ':' ∉ digest
  edges_evident : ∀ edge ∈ edges, edgeEvidence edge.id ≠ []
  file_roles : ∀ a ∈ assertions, a.subjectKind = "file".toList →
    ∀ role, classifiedAs a = some role → role ∈ sourceRoles
  subject_kinds : ∀ edge ∈ edges, edge.subjectKind ≠ dependencyKind

section Paths

/-- `_normalize_path`. -/
def normalizePath (path : Str) : Str :=
  (foldBackslashes path).dropWhile (fun c => c = '/')

/-- `path.strip("/")`. -/
def stripSlashes (path : Str) : Str :=
  ((path.dropWhile (fun c => c = '/')).reverse.dropWhile (fun c => c = '/')).reverse

/-- `_path_is_within`. -/
def pathIsWithin (path directory : Str) : Bool :=
  directory = [] || path = directory || startsWith path (directory ++ ['/'])

/-- `_path_for_stable_key`. -/
def pathForStableKey (nodeKind stableKey : Str) : Option Str :=
  if nodeKind = "file".toList ∧ startsWith stableKey "file:".toList then
    some (normalizePath (removePrefix "file:".toList stableKey))
  else if nodeKind = "symbol".toList ∧ (splitDouble stableKey).isSome then
    (splitDouble stableKey).map (fun p => normalizePath p.1)
  else if nodeKind = moduleKind ∧ startsWith stableKey "mod:".toList then
    some (normalizePath (removePrefix "mod:".toList stableKey))
  else none

/-- `posixpath.splitext(name)[0]`, of a name without a slash. -/
def stem (name : Str) : Str :=
  match name.reverse.dropWhile (fun c => c ≠ '.') with
  | [] => name
  | _ :: rest => if rest.all (fun c => c = '.') then name else rest.reverse

/-- The longest beginning that two lists of segments share. -/
def commonSegments : List Str → List Str → List Str
  | a :: as, b :: bs => if a = b then a :: commonSegments as bs else []
  | _, _ => []

/-- `_path_prefix`. -/
def pathPrefix (paths : List Str) : Str :=
  match paths.map (fun path => splitOn '/' (stripSlashes path)) with
  | [] => ['/']
  | parts :: rest => '/' :: joinWith '/' (rest.foldl commonSegments parts)

end Paths

section Modules

variable (facts : ArchitectureSnapshotFacts)

/-- `_paths_in_relationships`. -/
def pathsInRelationships : List Str :=
  (facts.edges.flatMap (fun edge => [edge.subjectKey, edge.objectKey])).filterMap
    (stripPrefix filePrefix)

/-- `_display_symbol`. -/
def displaySymbol (qualified : Str) : Str :=
  match qualified.reverse.takeWhile Char.isDigit, qualified.reverse.dropWhile Char.isDigit with
  | _ :: _, '#' :: rest => rest.reverse
  | _, _ => qualified

/-- The symbol that a key defines at the top level of a file. -/
def topLevelSymbol (stableKey : Str) : Option (Str × Str) :=
  match splitDouble stableKey with
  | none => none
  | some (path, qualified) =>
    if path = [] ∨ qualified = [] ∨ qualified.elem '.' then none
    else some (path, displaySymbol qualified)

/-- `_symbols_by_file`, of one file. -/
def symbolsOf (path : Str) : List Str :=
  sortedSet ((facts.symbolKeys.filterMap topLevelSymbol).filterMap
    (fun p => if p.1 = path then some p.2 else none))

def definesSymbols (path : Str) : Bool :=
  symbolsOf facts path ≠ []

/-- `_is_module_file`. -/
def isModuleFile (path : Str) : Bool :=
  definesSymbols facts path || (pathsInRelationships facts).elem path ||
    (fileRole facts path).any (fun role => role ≠ unknownRole)

/-- The files that are put into modules. -/
def moduleFiles : List Str :=
  sortBy codePoints (((facts.nodes.filter (fun node => node.nodeKind = "file".toList)).filterMap
    (fun node => stripPrefix filePrefix node.stableKey)).filter (fun path =>
      !nonModuleFilenames.elem (basename path) && isModuleFile facts path))

variable [Interpreter]

/-- `_module_id`, without its prefix. -/
def moduleSlug (path : Str) (role : Option Str) (defines : Bool) : Str :=
  let parts := (splitOn '/' (stripSlashes path)).filter (fun part => part ≠ [])
  let isRole (roles : List String) : Bool := role.any (fun r => (roles.map String.toList).elem r)
  if isRole ["controller", "route"] then "api".toList
  else if isRole ["service"] then "services".toList
  else if isRole ["repository"] then "repositories".toList
  else if isRole ["model", "dto", "interface", "enum"] then "domain".toList
  else if isRole ["middleware"] then "middleware".toList
  else if isRole ["configuration"] then "configuration".toList
  else if isRole ["test"] then "tests".toList
  else if isRole ["documentation"] then "documentation".toList
  else match parts with
    | [] => "repository".toList
    | first :: rest =>
      if defines then stripSlashes path
      else match rest with
        | [] => lower first
        | second :: _ =>
          if (["app", "src", "backend", "frontend", "apps"].map String.toList).elem first then
            lower second
          else lower first

/-- `_module_id`. -/
def moduleId (path : Str) : Str :=
  modulePrefix ++ moduleSlug path (fileRole facts path) (definesSymbols facts path)

/-- `raw.replace("-", " ").title()`. -/
def titled (title : Str → Str) (raw : Str) : Str :=
  title (raw.map (fun c => if c = '-' then ' ' else c))

/-- `_module_display_name`. -/
def moduleDisplayName (title : Str → Str) (id : Str) : Str :=
  let raw := removePrefix modulePrefix id
  if raw.elem '/' then
    let name := stem (basename raw)
    if (["__init__", "index", "mod"].map String.toList).elem name then
      let parent := basename (dirname raw)
      if parent = [] then name else parent
    else name
  else if raw.elem '.' then raw
  else titled title raw

/-- `max(items, key=f)`: the first of those with the greatest value. -/
def firstMax (f : Str → Nat) (l : List Str) : Option Str :=
  l.foldl (fun best a => match best with
    | none => some a
    | some b => if f b < f a then some a else some b) none

/-- The roles of the files of a module that say something. -/
def candidateRoles (paths : List Str) : List Str :=
  (paths.filterMap (fileRole facts)).filter
    (fun role => !(["unknown", "documentation", "test"].map String.toList).elem role)

/-- The role that most of the candidates have, and otherwise the one of the first file. -/
def dominantRole (paths : List Str) : Str :=
  let roles := candidateRoles facts paths
  match firstMax (fun role => roles.count role) roles with
  | some role => role
  | none => (paths.head?.bind (fileRole facts)).getD unknownRole

/-- The module of a group of files. A role that is not a `SourceRole` does not validate. -/
def moduleOf (title : Str → Str) (group : Str × List Str) :
    Except ArchitectureError RepositoryModule :=
  let role := dominantRole facts group.2
  if !sourceRoles.elem role then .error .validation
  else .ok
    { id := group.1
      name := moduleDisplayName title group.1
      role := role
      layer := layerForRole role
      pathPrefix := pathPrefix group.2
      files := sortBy codePoints group.2
      symbols := sortedSet (group.2.flatMap (symbolsOf facts)) }

/-- `_qualifying_parent`. -/
def qualifyingParent (path name : Str) : Str :=
  ((splitOn '/' (dirname path)).reverse.find?
    (fun segment => segment ≠ [] && segment ≠ name)).getD []

/-- A module whose name is qualified if another has it too. -/
def disambiguated (modules : List RepositoryModule) (m : RepositoryModule) : RepositoryModule :=
  let qualifier := qualifyingParent (removePrefix modulePrefix m.id) m.name
  { m with
    name :=
      if modules.countP (fun other => other.name = m.name) < 2 ∨ qualifier = [] then m.name
      else qualifier ++ '/' :: m.name }

/-- `_disambiguate_names`. -/
def disambiguateNames (modules : List RepositoryModule) : List RepositoryModule :=
  modules.map (disambiguated modules)

/-- `_empty_module([])`. -/
def emptyModule : RepositoryModule :=
  { id := "module:repository".toList
    name := "Repository".toList
    role := unknownRole
    layer := "shared".toList
    pathPrefix := ['/']
    files := []
    symbols := [] }

/-- `_modules_from_facts`. -/
def modulesFromFacts (title : Str → Str) : Except ArchitectureError (List RepositoryModule) :=
  match moduleFiles facts with
  | [] => .ok [emptyModule]
  | files => do
    let modules ← Checked.collect (moduleOf facts title)
      (Grouping.groups (fun path => some (moduleId facts path)) files)
    .ok (disambiguateNames (sortBy (fun m => codePoints m.id) modules))

end Modules

section Nodes

variable (facts : ArchitectureSnapshotFacts)

/-- `_nodes_for_modules`, of one module. -/
def moduleNode (m : RepositoryModule) : ArchNode :=
  { id := m.id
    name := m.name
    type := (roleToNodeType.lookup m.role).getD sharedLibrary
    files := m.files.take 25
    dependencies := []
    dependents := []
    layer := m.layer
    relationshipState := .notExtracted }

/-- The keys that the relationships name. -/
def relationshipKeys : List Str :=
  (facts.edges.filter (fun edge => isArchitecturePredicate edge.predicate)).flatMap
    (fun edge => [edge.subjectKey, edge.objectKey])

/-- The node of a dependency. -/
def dependencyNode (item : RiNode) : ArchNode :=
  { id := item.stableKey
    name := if item.name.getD [] = [] then item.stableKey else item.name.getD []
    type := sharedLibrary
    files := sortedSet ((facts.nodeEvidence item.id).map RiEvidence.path)
    dependencies := []
    dependents := []
    layer := external
    relationshipState := .notExtracted }

/-- `_dependency_nodes`. -/
def dependencyNodes : List ArchNode :=
  (facts.nodes.filter (fun item =>
    item.nodeKind = dependencyKind && (relationshipKeys facts).elem item.stableKey)).map
    (dependencyNode facts)

end Nodes

section Mapping

variable (facts : ArchitectureSnapshotFacts) (modules : List RepositoryModule)

/-- `modules_by_file.get(path, [])`. -/
def modulesByFile (path : Str) : List Str :=
  modules.flatMap fun m =>
    (m.files.filter (fun file => normalizePath file = path)).map (fun _ => m.id)

/-- The modules with a file below a directory. -/
def modulesWithin (directory : Str) : List Str :=
  (modules.filter (fun m => m.files.any (fun file =>
    pathIsWithin (normalizePath file) directory))).map RepositoryModule.id

/-- `_modules_for_evidence_scope`. -/
def modulesForEvidenceScope (evidence : List RiEvidence) : List Str :=
  evidence.flatMap fun item =>
    let directory := dirname (normalizePath item.path)
    if directory = [] then [] else modulesWithin modules directory

/-- The evidence that an end without a path of its own is mapped by. -/
def endpointEvidence (stableKey : Str) (edgeEvidence : List RiEvidence) (isSubject : Bool) :
    List RiEvidence :=
  let evidence := if isSubject then edgeEvidence else []
  match nodeByKey facts stableKey with
  | some node => if evidence = [] then facts.nodeEvidence node.id else evidence
  | none => evidence

/-- `_architecture_endpoint_ids`, before it is a set. -/
def endpointList (nodeKind stableKey : Str) (edgeEvidence : List RiEvidence) (isSubject : Bool) :
    List Str :=
  if nodeKind = dependencyKind then [stableKey]
  else if nodeKind = repositoryKind then modulesForEvidenceScope modules edgeEvidence
  else
    let path := pathForStableKey nodeKind stableKey
    let byEvidence :=
      let exact := (endpointEvidence facts stableKey edgeEvidence isSubject).flatMap
        (fun item => modulesByFile modules (normalizePath item.path))
      if exact ≠ [] then exact
      else match path with
        | some path => modulesWithin modules path
        | none => []
    match path with
    | some path => if nodeKind ≠ moduleKind then modulesByFile modules path else byEvidence
    | none => byEvidence

/-- `_architecture_endpoint_ids`. -/
def endpointIds (nodeKind stableKey : Str) (edgeEvidence : List RiEvidence) (isSubject : Bool) :
    List Str :=
  sortedSet (endpointList facts modules nodeKind stableKey edgeEvidence isSubject)

def sourceIds (fact : RiEdge) : List Str :=
  endpointIds facts modules fact.subjectKind fact.subjectKey (facts.edgeEvidence fact.id) true

def targetIds (fact : RiEdge) : List Str :=
  endpointIds facts modules fact.objectKind fact.objectKey (facts.edgeEvidence fact.id) false

/-- The evidence of a dependency that is declared at the root of the repository. -/
def rootScopeEvidence (fact : RiEdge) : List RiEvidence :=
  (facts.edgeEvidence fact.id).filter fun item =>
    fact.predicate = dependsOn && fact.subjectKind = repositoryKind &&
      dirname (normalizePath item.path) = []

/-- The pairs of nodes that a relationship is mapped to, in order. -/
def pairs (nodeIds : List Str) (fact : RiEdge) : List (Str × Str) :=
  sortBy (fun p => toLex (codePoints p.1, codePoints p.2))
    (((sourceIds facts modules fact).flatMap (fun source =>
      (targetIds facts modules fact).map (fun target => (source, target)))).filter
        (fun p => nodeIds.elem p.1 && nodeIds.elem p.2))

def nonSelfPairs (nodeIds : List Str) (fact : RiEdge) : List (Str × Str) :=
  (pairs facts modules nodeIds fact).filter (fun p => p.1 ≠ p.2)

/-- A diagnostic about a relationship, at the first of some evidence. -/
def relationshipDiagnostic (fact : RiEdge) (code message : Str)
    (severity : Insights.StoredSeverity) (evidence : List RiEvidence)
    (nodeIds : Option (List Str)) : ArchitectureDiagnostic :=
  { code := code
    category := "relationship mapping".toList
    severity := severity
    message := message
    path := evidence.head?.map RiEvidence.path
    startLine := evidence.head?.map RiEvidence.startLine
    endLine := evidence.head?.map RiEvidence.endLine
    subjectKey := some fact.subjectKey
    objectKey := some fact.objectKey
    details := some (.relationship fact.edgeId fact.predicate)
    nodeIds := nodeIds }

/-- `items or None`. -/
def orNone (items : List Str) : Option (List Str) :=
  if items = [] then none else some items

def repoScoped (nodeIds : List Str) (fact : RiEdge) : ArchitectureDiagnostic :=
  relationshipDiagnostic fact repoScopedCode
    ("A repository-root dependency declaration is kept repository-scoped and is not " ++
      "attributed to modules.").toList .info (rootScopeEvidence facts fact)
    (if nodeIds.elem fact.objectKey then some [fact.objectKey] else none)

def endpointUnmapped (fact : RiEdge) : ArchitectureDiagnostic :=
  relationshipDiagnostic fact endpointUnmappedCode
    ("A resolved relationship could not be mapped to architecture nodes without " ++
      "guessing.").toList .warning (facts.edgeEvidence fact.id)
    (orNone (sortedSet (sourceIds facts modules fact ++ targetIds facts modules fact)))

def citation (fact : RiEdge) (item : RiEvidence) : ArchEvidence :=
  { snapshotId := facts.snapshotId
    factId := fact.edgeId
    path := item.path
    startLine := item.startLine
    endLine := item.endLine }

/-- The id of an edge of a relationship that has several. -/
def indexedId (fact : RiEdge) (count index : Nat) : Str :=
  if count = 1 then fact.edgeId else fact.edgeId ++ ':' :: Nat.toDigits 10 index

/-- The edge of the pair at an index. -/
def pairEdge (fact : RiEdge) (count : Nat) (p : (Str × Str) × Nat) : ArchEdge :=
  { id := indexedId fact count p.2
    source := p.1.1
    target := p.1.2
    type := (relationshipEdgeTypes.lookup fact.predicate).getD []
    label := fact.predicate.map (fun c => if c = '_' then ' ' else c)
    predicate := fact.predicate
    truthClass := .inferred
    evidence := (facts.edgeEvidence fact.id).map (citation facts fact) }

/-- What is made of a relationship: edges, diagnostics, and nodes that are not resolved. -/
structure Mapped where
  edges : List ArchEdge
  diagnostics : List ArchitectureDiagnostic
  unresolved : List Str

def Mapped.nothing : Mapped :=
  { edges := [], diagnostics := [], unresolved := [] }

/-- One pass of the loop over the relationships. -/
def mapFact (nodeIds : List Str) (fact : RiEdge) : Mapped :=
  if !isArchitecturePredicate fact.predicate then Mapped.nothing
  else
    let root := rootScopeEvidence facts fact
    let rooted := if root = [] then [] else [repoScoped facts nodeIds fact]
    let nonSelf := nonSelfPairs facts modules nodeIds fact
    if root ≠ [] ∧ root.length = (facts.edgeEvidence fact.id).length then
      { Mapped.nothing with diagnostics := rooted }
    -- A relationship inside one module is no edge between modules.
    else if pairs facts modules nodeIds fact ≠ [] ∧ nonSelf = [] then
      { Mapped.nothing with diagnostics := rooted }
    else if nonSelf = [] then
      { edges := []
        diagnostics := rooted ++ [endpointUnmapped facts modules fact]
        unresolved := sourceIds facts modules fact ++ targetIds facts modules fact }
    else
      { edges := (nonSelf.zipIdx 1).map (pairEdge facts fact nonSelf.length)
        diagnostics := rooted
        unresolved := [] }

/-- The nodes that a key of a diagnostic stands for. -/
def attributedTo (nodeIds : List Str) (key : Str) : List Str :=
  if nodeIds.elem key then [key]
  else
    let kind := if startsWith key "file:".toList then "file".toList else "symbol".toList
    match pathForStableKey kind key with
    | some path => modulesByFile modules path
    | none => []

/-- The modules of the path of a diagnostic. -/
def modulesOfPath (path : Option Str) : List Str :=
  match path with
  | none => []
  | some [] => []
  | some path => modulesByFile modules (normalizePath path)

/-- `_architecture_diagnostic`. -/
def architectureDiagnostic (nodeIds : List Str) (item : RiDiagnostic) : ArchitectureDiagnostic :=
  { code := item.code
    category := item.category
    severity := item.severity
    message := item.message
    path := item.path
    startLine := item.spanStartLine
    endLine := item.spanEndLine
    subjectKey := item.subjectKey
    objectKey := item.objectKey
    details := item.observationId.map Details.stored
    nodeIds := orNone (sortedSet (modulesOfPath modules item.path ++
      (item.subjectKey.toList ++ item.objectKey.toList).flatMap (attributedTo modules nodeIds))) }

/-- The nodes that a diagnostic leaves unresolved. -/
def unresolvedBy (nodeIds : List Str) (item : RiDiagnostic) : List Str :=
  modulesOfPath modules item.path ++
    (item.subjectKey.toList ++ item.objectKey.toList).filter (fun key => nodeIds.elem key)

end Mapping

section Assembly

/-- The dependencies and dependents of a node, each once and in order. -/
def linked (edges : List ArchEdge) (node : ArchNode) : ArchNode :=
  { node with
    dependencies := sortedSet
      ((edges.filter (fun edge => edge.source = node.id)).map ArchEdge.target)
    dependents := sortedSet
      ((edges.filter (fun edge => edge.target = node.id)).map ArchEdge.source) }

/-- The ends of the edges. -/
def endpointsOf (edges : List ArchEdge) : List Str :=
  edges.flatMap (fun edge => [edge.source, edge.target])

/-- The files of a module are those of its only entry in `module_by_id`. -/
def coveredModule (modules : List RepositoryModule) (coveredPaths : List Str) (id : Str) : Bool :=
  (modules.find? (fun m => m.id = id)).any fun m =>
    m.files ≠ [] && m.files.all (fun path => coveredPaths.elem (normalizePath path))

/-- `_set_relationship_states`, of one node. -/
def withState (modules : List RepositoryModule) (edges : List ArchEdge) (unresolved : List Str)
    (coveredPaths : List Str) (node : ArchNode) : ArchNode :=
  { node with
    relationshipState :=
      if (endpointsOf edges).elem node.id then .connected
      else if unresolved.elem node.id then .unresolved
      else if coveredModule modules coveredPaths node.id then .noObservedRelationships
      else .notExtracted }

/-- The nodes of a diagnostic that are left. -/
def restricted (remaining : List Str) (d : ArchitectureDiagnostic) : ArchitectureDiagnostic :=
  { d with
    nodeIds := d.nodeIds.bind (fun ids => orNone (ids.filter (fun id => remaining.elem id))) }

/-- `_layers_for_nodes`. -/
def layersForNodes (title : Str → Str) (nodes : List ArchNode) : List ArchLayer :=
  (sortBy (fun group => orderOf group.1)
    (Grouping.groups (fun node : ArchNode => some node.layer) nodes)).map fun group =>
      { id := group.1
        name := titled title group.1
        order := orderOf group.1
        nodes := group.2.map ArchNode.id }

/-- The module as it is returned. -/
def archModule (m : RepositoryModule) : ArchModule :=
  { id := m.id
    name := m.name
    layer := m.layer
    nodeIds := [m.id]
    fileCount := m.files.length }

/-- The nodes of the modules and of the dependencies, before they are linked. -/
def drawnNodes (facts : ArchitectureSnapshotFacts) (modules : List RepositoryModule) :
    List ArchNode :=
  modules.map moduleNode ++ dependencyNodes facts

def drawnIds (facts : ArchitectureSnapshotFacts) (modules : List RepositoryModule) : List Str :=
  (drawnNodes facts modules).map ArchNode.id

/-- The edges of all relationships. -/
def edgesForModules (facts : ArchitectureSnapshotFacts) (modules : List RepositoryModule) :
    List ArchEdge :=
  facts.edges.flatMap (fun fact => (mapFact facts modules (drawnIds facts modules) fact).edges)

/-- The nodes that are left when the dependencies that no edge reaches are taken out. -/
def keptNodes (facts : ArchitectureSnapshotFacts) (modules : List RepositoryModule) :
    List ArchNode :=
  let edges := edgesForModules facts modules
  ((drawnNodes facts modules).map (linked edges)).filter (fun node =>
    node.layer ≠ external || (endpointsOf edges).elem node.id)

/-- What is drawn, once it is known which diagnostics are about the architecture. -/
def assemble (title : Str → Str) (record : RepositoryRecord) (facts : ArchitectureSnapshotFacts)
    (modules : List RepositoryModule) (items : List RiDiagnostic) : ArchitectureResponse :=
  let nodeIds := drawnIds facts modules
  let edges := edgesForModules facts modules
  let diagnostics := items.map (architectureDiagnostic modules nodeIds) ++
    facts.edges.flatMap (fun fact => (mapFact facts modules nodeIds fact).diagnostics)
  let unresolved := items.flatMap (unresolvedBy modules nodeIds) ++
    facts.edges.flatMap (fun fact => (mapFact facts modules nodeIds fact).unresolved)
  let kept := keptNodes facts modules
  let nodes := kept.map (withState modules edges unresolved facts.coveredPaths)
  { repositoryId := record.id
    repositoryName := record.name
    detectedLayers := layersForNodes title nodes
    nodes := nodes
    edges := edges
    modules := modules.map archModule
    relationshipSnapshotId := facts.snapshotId
    diagnostics := diagnostics.map (restricted (kept.map ArchNode.id)) }

variable [Unicode] [Interpreter]

/-- `architecture_diagnostic_items`. -/
def diagnosticItems (ctx : Insights.Context) (facts : ArchitectureSnapshotFacts) :
    Except ArchitectureError (List RiDiagnostic) :=
  match Checked.select (fun item : RiDiagnostic =>
      Insights.isArchitectureRelevant ctx item.toRiDiagnostic) facts.diagnostics with
  | .ok items => .ok items
  | .error e => .error (.canonical e)

/-- `build_architecture`. -/
def buildArchitecture (title : Str → Str) (record : RepositoryRecord)
    (facts : ArchitectureSnapshotFacts) (ctx : Insights.Context) :
    Except ArchitectureError ArchitectureResponse := do
  let modules ← modulesFromFacts facts title
  let items ← diagnosticItems ctx facts
  .ok (assemble title record facts modules items)

end Assembly

end Architecture

end Partha
