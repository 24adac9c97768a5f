import Partha.Extraction.Naming
import Partha.Library.SortKeys

/-!
# The Relationship Resolver

`RelationshipResolver.resolve`: what the observations of a building snapshot
become, an edge or a diagnostic.

Every observation with evidence is an input, with the first of its evidence rows
in the order of `_evidence_key`. A reference is looked up in three places, one
after the other: as a full stable key, as a symbol of its own file, and through
the import bindings of its file. What is found is a list of candidates, and only
a single candidate makes an edge.

The nodes are a dictionary by stable key. Stable keys are unique, so looking a
key up is finding the node. The dictionary is also scanned as a whole, in the
order in which the nodes came back. The observations come back sorted.

What is modelled is which facts are handed to the store. The checks that the
store makes on them are those of the canonical layer. `str.lower` and the other
Unicode functions are taken as given, and identifiers of rows are numbers.

## Main definitions

* `Tables`: The stored rows.
* `Input`: An observation with its evidence.
* `Fact`: An edge or a diagnostic.
* `importCandidates`: `_import_candidates`.
* `referenceCandidates`: `_reference_candidates`.
* `containingSymbol`: `_containing_symbol`.
* `resolveCandidates`: `_resolve_candidates`.
* `resolve`: `resolve`, with the facts of every input.
-/

namespace Partha

namespace Resolution

open Canonical Extraction SortKeys

/-- `posixpath.dirname`. -/
def dirname (path : Str) : Str :=
  let head := (path.reverse.dropWhile (fun c => c ≠ '/')).reverse
  if head.all (fun c => c = '/') then head
  else (head.reverse.dropWhile (fun c => c = '/')).reverse

/-- `posixpath.basename`. -/
def basename (path : Str) : Str :=
  (path.reverse.takeWhile (fun c => c ≠ '/')).reverse

/-- `posixpath.join` of two parts. -/
def joinPath (a b : Str) : Str :=
  if b.head? = some '/' then b
  else if a = [] ∨ a.getLast? = some '/' then a ++ b
  else a ++ '/' :: b

/-- The components of `posixpath.normpath`, last one first. -/
def normComponents (absolute : Bool) : List Str → List Str → List Str
  | done, [] => done
  | done, c :: cs =>
    if c = [] ∨ c = ['.'] then normComponents absolute done cs
    else if c ≠ ['.', '.'] ∨ (!absolute ∧ done = []) ∨ done.head? = some ['.', '.'] then
      normComponents absolute (c :: done) cs
    else normComponents absolute done.tail cs

/-- The slashes that `posixpath.normpath` keeps at the start. -/
def initialSlashes (path : Str) : Nat :=
  match path.takeWhile (fun c => c = '/') with
  | [] => 0
  | [_, _] => 2
  | _ => 1

/-- `posixpath.normpath`. -/
def normpath (path : Str) : Str :=
  let slashes := initialSlashes path
  let components := (normComponents (slashes ≠ 0) [] (splitOn '/' path)).reverse
  let normal := List.replicate slashes '/' ++ joinWith '/' components
  if normal = [] then ['.'] else normal

structure Node where
  id : Nat
  nodeKind : Str
  stableKey : Str
  name : Option Str
  defaultExport : Bool
  deriving DecidableEq, Repr

structure Observation where
  id : Nat
  observationId : Str
  observedKind : Str
  subjectKey : Str
  referentText : Option Str
  ordinal : Nat
  deriving DecidableEq, Repr

inductive Granularity where
  | span
  | file
  deriving DecidableEq, Repr

inductive Parent where
  | node (ref : Nat)
  | edge (ref : Nat)
  | observation (ref : Nat)
  deriving DecidableEq, Repr

structure Evidence where
  parent : Parent
  path : Str
  startLine : Nat
  endLine : Nat
  logicalLineCount : Nat
  granularity : Granularity
  extractor : Str
  extractorVersion : Str
  deriving DecidableEq, Repr

/-- The stored rows of a building snapshot, in the order they come back. -/
structure Tables where
  nodes : List Node
  observations : List Observation
  evidence : List Evidence

structure Input where
  observation : Observation
  evidence : Evidence
  deriving DecidableEq, Repr

/-- The codes `RI_RES_UNRESOLVED` and `RI_RES_AMBIGUOUS`, with their categories. -/
inductive Code where
  | unresolved
  | ambiguous
  deriving DecidableEq, Repr

/-- A fact that the resolver adds. An edge has the evidence of its input and is
    derived from its observation. -/
inductive Fact where
  | edge (subjectKind subjectKey predicate objectKind objectKey : Str) (evidence : Evidence)
      (derivedFrom : Str)
  | diagnostic (code : Code) (message path : Str) (span : Nat × Nat) (subject observationId : Str)
      (candidates : List Str)
  deriving DecidableEq, Repr

/-- The parts of an `import_binding`. -/
structure Binding where
  specifier : Str
  imported : Str
  localName : Str
  deriving DecidableEq, Repr

def Granularity.text : Granularity → Str
  | .span => "span".toList
  | .file => "file".toList

/-- `_evidence_key`. -/
def evidenceKey (e : Evidence) : List (List Nat) :=
  [codePoints e.path, [e.startLine], [e.endLine], codePoints e.granularity.text,
    codePoints e.extractor, codePoints e.extractorVersion]

def symbolKind : Str := "symbol".toList

def fileKind : Str := "file".toList

def moduleKind : Str := "module".toList

def dependencyKind : Str := "dependency".toList

/-- `f"file:{path}"`. -/
def fileKey (path : Str) : Str :=
  "file:".toList ++ path

/-- `f"{path}::{name}"`. -/
def symbolKey (path name : Str) : Str :=
  path ++ ':' :: ':' :: name

/-- `nodes_by_key.get(key)`. -/
def nodeByKey (nodes : List Node) (key : Str) : Option Node :=
  nodes.find? (fun n => n.stableKey = key)

/-- A node that is there and has the kind that is asked for. -/
def nodeOfKind (nodes : List Node) (kind key : Str) : Option Node :=
  (nodeByKey nodes key).filter (fun n => n.nodeKind = kind)

/-- `_resolver_evidence`. -/
def resolverEvidence (e : Evidence) : Evidence :=
  { e with
    extractor := "relationship-resolver".toList
    extractorVersion := "1.1.0".toList }

/-- `_add_edge`. -/
def addEdge (i : Input) (subject : Node) (predicate : Str) (object : Node) : Fact :=
  .edge subject.nodeKind subject.stableKey predicate object.nodeKind object.stableKey
    (resolverEvidence i.evidence) i.observation.observationId

/-- `_diagnostic`. -/
def diagnostic (i : Input) (code : Code) (message : Str) (candidates : List Str) : Fact :=
  .diagnostic code message i.evidence.path (i.evidence.startLine, i.evidence.endLine)
    i.observation.subjectKey i.observation.observationId candidates

/-- `_unresolved`. -/
def unresolved (i : Input) (message : String) : List Fact :=
  [diagnostic i .unresolved message.toList []]

/-- A message that opens with the predicate. -/
def unresolvedFor (i : Input) (predicate : Str) (message : String) : List Fact :=
  [diagnostic i .unresolved (predicate ++ message.toList) []]

/-- `_source_file`. -/
def sourceFile (nodes : List Node) (i : Input) : Option Node :=
  match nodeOfKind nodes fileKind i.observation.subjectKey with
  | some subject => some subject
  | none => nodeByKey nodes (fileKey i.evidence.path)

/-- `_parse_import_binding`. -/
def parseImportBinding (value : Option Str) : Option Binding :=
  value.bind (fun value =>
    match value.dropWhile (fun c => c ≠ '|') with
    | [] => none
    | _ :: rest => match rest.dropWhile (fun c => c ≠ '|') with
      | [] => none
      | _ :: name =>
        if before '|' value = [] ∨ before '|' rest = [] ∨ name = [] then none
        else some
          { specifier := before '|' value
            imported := before '|' rest
            localName := name })

/-- `_relative_file_candidates`. -/
def relativeFileCandidates (specifier sourcePath : Str) : List Str :=
  let leading := (specifier.takeWhile (fun c => c = '.')).length
  let remainder := specifier.drop leading
  let roots :=
    if remainder.head? = some '/' then [normpath (joinPath (dirname sourcePath) specifier)]
    else
      let directory := (List.range (leading - 1)).foldl (fun d _ => dirname d)
        (dirname sourcePath)
      let parts := (splitOn '.' remainder).filter (fun part => part ≠ [])
      (List.range parts.length).map (fun k =>
        (parts.take (parts.length - k)).foldl joinPath directory)
  roots.flatMap (fun root =>
    if endsWith root ".ts".toList || endsWith root ".tsx".toList || endsWith root ".py".toList then
      [root]
    else
      [".ts", ".tsx", ".py", "/index.ts", "/index.tsx", "/__init__.py"].map
        (fun suffix => root ++ suffix.toList))

/-- `_python_source_roots`. -/
def pythonSourceRoots (paths : List Str) : List Str :=
  let packageDirs := (paths.filter (fun path => basename path = "__init__.py".toList)).map dirname
  [] :: (packageDirs.map dirname).filter (fun parent => !packageDirs.elem parent)

/-- `_python_absolute_file_candidates`. -/
def pythonAbsoluteFileCandidates (roots : List Str) (specifier : Str) : List Str :=
  let dotted := specifier.map (fun c => if c = '.' then '/' else c)
  roots.flatMap (fun root =>
    let start := if root = [] then [] else root ++ ['/']
    [start ++ dotted ++ ".py".toList, start ++ dotted ++ "/__init__.py".toList])

/-- `[A-Za-z_][A-Za-z0-9_.]*`. -/
def isDottedName : Str → Bool
  | [] => false
  | c :: s => (c.isAlpha || c = '_') && s.all (fun d => d.isAlphanum || d = '_' || d = '.')

/-- The paths of the files of a snapshot, as the source roots are derived from. -/
def filePaths (nodes : List Node) : List Str :=
  (nodes.filter (fun n => n.nodeKind = fileKind)).map
    (fun n => (stripPrefix "file:".toList n.stableKey).getD n.stableKey)

/-- The files that a specifier may name. -/
def fileCandidates (nodes : List Node) (specifier sourcePath : Str) (bindings : List Binding) :
    List Str :=
  let roots := pythonSourceRoots (filePaths nodes)
  if startsWith specifier ['.'] then relativeFileCandidates specifier sourcePath
  else if isPython sourcePath && isDottedName specifier then
    pythonAbsoluteFileCandidates roots specifier ++
      (bindings.filter (fun b => b.specifier ≠ [] ∧
        b.specifier ++ '.' :: b.imported = specifier)).flatMap
        (fun b => pythonAbsoluteFileCandidates roots b.specifier)
  else []

/-- The nodes of the files that a specifier may name. -/
def fileNodes (nodes : List Node) (specifier sourcePath : Str) (bindings : List Binding) :
    List Node :=
  nodes.filter (fun n => n.nodeKind = fileKind ∧
    ((fileCandidates nodes specifier sourcePath bindings).map fileKey).contains n.stableKey)

/-- The symbols of a file by their keys. -/
def inFile (path : Str) (n : Node) : Bool :=
  n.nodeKind = symbolKind && startsWith n.stableKey (symbolKey path [])

variable [Interpreter]

/-- The key of a dependency on the npm registry. -/
def npmKey (package : Str) : Str :=
  "dep:npm:".toList ++ package

/-- The key of a dependency on the Python package index. -/
def pypiKey (package : Str) : Str :=
  "dep:pypi:".toList ++ lower (collapseSeparators false package)

/-- `_import_candidates`. A package is looked for in both registries. -/
def importCandidates (nodes : List Node) (specifier sourcePath : Str) (bindings : List Binding) :
    List Node :=
  match fileNodes nodes specifier sourcePath bindings with
  | [] =>
    let package := packageRoot specifier sourcePath
    nodes.filter (fun n => n.nodeKind = dependencyKind ∧
      (n.stableKey = npmKey package ∨ n.stableKey = pypiKey package))
  | files => files

/-- What one binding finds in one file. -/
def boundSymbols (nodes : List Node) (imported path : Str) : List Node :=
  if imported = "default".toList then
    nodes.filter (fun n => inFile path n && n.defaultExport)
  else match nodeOfKind nodes symbolKind (symbolKey path imported) with
    | some target => [target]
    | none => nodes.filter (fun n => inFile path n && n.name = some imported)

/-- What a binding finds in the files that its specifier names. -/
def boundCandidates (nodes : List Node) (sourcePath : Str) (b : Binding) : List Node :=
  ((importCandidates nodes b.specifier sourcePath []).filter
    (fun n => n.nodeKind = fileKind)).flatMap (fun n =>
      boundSymbols nodes b.imported ((stripPrefix "file:".toList n.stableKey).getD n.stableKey))

/-- `_reference_candidates`. -/
def referenceCandidates (nodes : List Node) (referent sourcePath : Str) (bindings : List Binding) :
    List Node :=
  match nodeOfKind nodes symbolKind referent with
  | some direct => [direct]
  | none => match nodeOfKind nodes symbolKind (symbolKey sourcePath referent) with
    | some sameFile => [sameFile]
    | none => match nodeByKey nodes (fileKey sourcePath) with
      | none => []
      | some _ => (bindings.filter (fun b => b.localName = referent)).flatMap
          (boundCandidates nodes sourcePath)

/-- `_resolve_candidates`. -/
def resolveCandidates (nodes : List Node) (i : Input) (subject : Node) (predicate : Str)
    (candidates : List Node) : List Fact :=
  match sortedSet (candidates.map (·.stableKey)) with
  | [] => unresolvedFor i predicate " has no resolvable target"
  | [key] => match nodeByKey nodes key with
    | some target => [addEdge i subject predicate target]
    | none => []
  | keys => [diagnostic i .ambiguous
      (predicate ++ " has more than one candidate target".toList) keys]

/-- The symbols whose evidence surrounds an input: how long the evidence is, and
    the key of the symbol. -/
def surrounding (t : Tables) (i : Input) : List (Nat × Node) :=
  (t.nodes.filter (fun n => n.nodeKind = symbolKind)).flatMap (fun n =>
    (t.evidence.filter (fun e => e.parent = .node n.id ∧ e.path = i.evidence.path ∧
      e.startLine ≤ i.evidence.startLine ∧ i.evidence.endLine ≤ e.endLine)).map
      (fun e => (e.endLine - e.startLine, n)))

/-- `_containing_symbol`. Two evidence rows of the least length are no answer. -/
def containingSymbol (t : Tables) (i : Input) : Option Node :=
  match sortBy (fun c : Nat × Node => [[c.1], codePoints c.2.stableKey]) (surrounding t i) with
  | [] => none
  | [c] => some c.2
  | c :: d :: _ => if c.1 = d.1 then none else some c.2

/-- `_reference_subject`. -/
def referenceSubject (t : Tables) (i : Input) : Option Node :=
  match nodeOfKind t.nodes symbolKind i.observation.subjectKey with
  | some subject => some subject
  | none => match containingSymbol t i with
    | some subject => some subject
    | none => (nodeByKey t.nodes i.observation.subjectKey).filter
        (fun n => n.nodeKind = fileKind ∨ n.nodeKind = moduleKind)

/-- `value.rsplit('.', 1)[0]`, for a value with a dot. -/
def beforeLastDot (s : Str) : Str :=
  ((s.reverse.dropWhile (fun c => c ≠ '.')).drop 1).reverse

/-- The key of the lexical parent of a symbol. -/
def parentKey (path qualified : Str) : Str :=
  if '.' ∈ qualified then symbolKey path (beforeLastDot qualified) else fileKey path

/-- `_resolve_definition`. -/
def resolveDefinition (t : Tables) (i : Input) : List Fact :=
  match nodeOfKind t.nodes symbolKind i.observation.subjectKey with
  | none => unresolved i "definition has no resolvable symbol parent"
  | some symbol => match splitDouble symbol.stableKey with
    | none => unresolved i "definition has no resolvable symbol parent"
    | some (path, qualified) => match nodeByKey t.nodes (parentKey path qualified) with
      | none => unresolved i "definition parent is absent from the snapshot"
      | some parent =>
        [addEdge i parent "contains".toList symbol, addEdge i parent "defines".toList symbol]

/-- A referent that is there and not empty. -/
def referent (i : Input) : Option Str :=
  i.observation.referentText.filter (fun text => text ≠ [])

/-- `_resolve_import`. -/
def resolveImport (t : Tables) (bindings : Str → List Binding) (i : Input) : List Fact :=
  match sourceFile t.nodes i with
  | none => unresolved i "import source file is absent from the snapshot"
  | some subject => match referent i with
    | none => unresolved i "import has no module specifier"
    | some specifier => resolveCandidates t.nodes i subject "imports".toList
        (importCandidates t.nodes specifier i.evidence.path (bindings subject.stableKey))

/-- `_resolve_reference`. -/
def resolveReference (t : Tables) (bindings : Str → List Binding) (predicate : Str) (i : Input) :
    List Fact :=
  match referenceSubject t i with
  | none => unresolvedFor i predicate " source symbol is absent from the snapshot"
  | some subject => match referent i with
    | none => unresolvedFor i predicate " has no reference text"
    | some text => resolveCandidates t.nodes i subject predicate
        (referenceCandidates t.nodes text i.evidence.path (bindings (fileKey i.evidence.path)))

/-- `_resolve_dependency`. -/
def resolveDependency (t : Tables) (i : Input) : List Fact :=
  match nodeOfKind t.nodes dependencyKind i.observation.subjectKey,
    nodeByKey t.nodes "repo:root".toList with
  | some dependency, some repository => [addEdge i repository "depends_on".toList dependency]
  | _, _ => unresolved i "dependency declaration is incomplete"

/-- `parse_referent`: the origin of a destination. -/
def parseReferent (referent : Str) : Option Str :=
  match splitOn '|' referent with
  | [method, origin, path] => if method = [] ∨ origin = [] ∨ path = [] then none else some origin
  | _ => none

/-- `_resolve_http_call`. -/
def resolveHttpCall (t : Tables) (i : Input) : List Fact :=
  match (referent i).bind parseReferent with
  | none => unresolved i "calls_service has no parsable destination"
  | some origin => match referenceSubject t i with
    | none => unresolved i "calls_service source is absent from the snapshot"
    | some subject =>
      match nodeOfKind t.nodes "service".toList ("svc:".toList ++ origin) with
      | none => unresolved i "calls_service target service is absent from the snapshot"
      | some service => [addEdge i subject "calls_service".toList service]

/-- `_resolve_iac_resource`. -/
def resolveIacResource (t : Tables) (i : Input) : List Fact :=
  match nodeOfKind t.nodes "iac_resource".toList i.observation.subjectKey,
    nodeByKey t.nodes "repo:root".toList with
  | some resource, some repository => [addEdge i repository "declares".toList resource]
  | _, _ => unresolved i "iac resource declaration is incomplete"

/-- `_resolve_route`. -/
def resolveRoute (t : Tables) (bindings : Str → List Binding) (handlers : List Input)
    (route : Input) : List Fact :=
  match nodeOfKind t.nodes symbolKind route.observation.subjectKey with
  | none => unresolved route "route declaration is absent from the snapshot"
  | some routeNode => match handlers with
    | [] => unresolved route "route has no observed handler reference"
    | [handler] => match referent handler with
      | none => unresolved handler "route handler has no reference text"
      | some text => resolveCandidates t.nodes handler routeNode "routes_to".toList
          (referenceCandidates t.nodes text handler.evidence.path
            (bindings (fileKey handler.evidence.path)))
    | _ => [diagnostic route .ambiguous "route has more than one handler reference".toList []]

/-- The inputs, in the order of their observations. -/
def inputs (t : Tables) : List Input :=
  (sortBy (fun o => codePoints o.observationId) t.observations).filterMap (fun o =>
    (sortBy evidenceKey (t.evidence.filter (fun e => e.parent = .observation o.id))).head?.map
      (fun e => { observation := o, evidence := e }))

/-- `inputs_by_kind[kind]`. -/
def inputsOf (t : Tables) (kind : String) : List Input :=
  (inputs t).filter (fun i => i.observation.observedKind = kind.toList)

/-- `bindings_by_file`. -/
def bindingsByFile (t : Tables) (key : Str) : List Binding :=
  (inputsOf t "import_binding").filterMap (fun i =>
    if (sourceFile t.nodes i).any (fun source => source.stableKey = key) then
      parseImportBinding i.observation.referentText
    else none)

/-- `_reference_input_key`. -/
def referenceInputKey (i : Input) : Str × Option Str × Str × Nat × Nat × Nat :=
  (i.observation.subjectKey, i.observation.referentText, i.evidence.path, i.evidence.startLine,
    i.evidence.endLine, i.observation.ordinal)

instance (key : Str × Option Str × Str × Nat × Nat × Nat)
    (keys : List (Str × Option Str × Str × Nat × Nat × Nat)) : Decidable (key ∈ keys) :=
  inferInstance

/-- `shadowed_calls`. -/
def shadowedCalls (t : Tables) : List (Str × Option Str × Str × Nat × Nat × Nat) :=
  (inputsOf t "call_shadowed").map referenceInputKey

/-- A call, unless a local binding shadows its target. -/
def resolveCall (t : Tables) (bindings : Str → List Binding) (i : Input) : List Fact :=
  if referenceInputKey i ∈ shadowedCalls t then
    unresolved i "calls target is shadowed by a local binding"
  else resolveReference t bindings "calls".toList i

/-- `route_handlers.get(subject_key)`. -/
def handlersOf (t : Tables) (subjectKey : Str) : List Input :=
  (inputsOf t "route_handler").filter (fun i => i.observation.subjectKey = subjectKey)

/-- `resolve`: the relationship inputs in their order, each with its facts. -/
def resolve (t : Tables) : List (Input × List Fact) :=
  let bindings := bindingsByFile t
  let each (kind : String) (facts : Input → List Fact) :=
    (inputsOf t kind).map (fun i => (i, facts i))
  each "definition" (resolveDefinition t) ++
    each "import" (resolveImport t bindings) ++
    each "call" (resolveCall t bindings) ++
    each "implements" (resolveReference t bindings "implements".toList) ++
    each "dependency" (resolveDependency t) ++
    each "injects" (resolveReference t bindings "injects".toList) ++
    each "http_call" (resolveHttpCall t) ++
    each "iac_resource" (resolveIacResource t) ++
    each "route" (fun i => resolveRoute t bindings (handlersOf t i.observation.subjectKey) i)

def Fact.isEdge : Fact → Bool
  | .edge _ _ _ _ _ _ _ => true
  | .diagnostic _ _ _ _ _ _ _ => false

/-- The facts of a resolver pass, in the order in which they are added. -/
def facts (t : Tables) : List Fact :=
  (resolve t).flatMap (·.2)

/-- `ResolutionResult`: the edges and the diagnostics that were added. -/
def resolutionResult (t : Tables) : Nat × Nat :=
  ((facts t).countP Fact.isEdge, (facts t).countP (fun f => !f.isEdge))

end Resolution

end Partha
