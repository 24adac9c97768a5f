import Mathlib.Algebra.GroupWithZero.Nat
import Partha.Extraction.Evidence
import Partha.Extraction.PythonCalls
import Partha.Resolution.Resolver

/-!
# The Extraction Pipeline

`ExtractionPipeline.iter_run`: the sources of a repository one after the other,
and what each of them yields.

A path that leaves the repository and a file over the budget become diagnostics
of the inventory. Any other file is given to the one extractor that supports it,
or else it is decoded and becomes a file node. The first file that is text also
gives evidence for the root of the repository. An extractor that says something
about a file without naming the file itself gets a file node beside its result.

Extractors are parameters. They return normally, and they leave the root of the
repository to the inventory. What the run yields for a source is one list, and
checks for cancellation are left out.

## Main definitions

* `ExtractedNode`, `ExtractionResult`, `ProducedExtraction`: What is extracted.
* `Extractor`: An extractor.
* `ExtractionPipeline.produce`: What one source yields.
* `ExtractionPipeline.iterRun`: `iter_run`.
* `Accounted`: A source is answered for, and by one file node at most.

## Theorems

* `produce_ok`: A source with a file key is handled without an error.
* `produce_accounted`: It is answered for.
* `iterRun_accounts`: The whole run, and the root of the repository.
-/

namespace Partha

namespace Extraction

open Canonical Checked JsonText
open Resolution (basename)
open List

section Results

/-- `ExtractedNode`. -/
structure ExtractedNode where
  nodeKind : Str
  stableKey : Str
  name : Option Str
  language : Option Str
  evidence : List ExtractedEvidence
  properties : Option (List (Str × Value))

/-- `ExtractionResult`. -/
structure ExtractionResult where
  nodes : List ExtractedNode
  observations : List ExtractedObservation
  diagnostics : List ExtractedDiagnostic

/-- `ProducedExtraction`: a result and who it is from. -/
structure ProducedExtraction where
  producerName : Str
  producerVersion : Str
  result : ExtractionResult

end Results

section Definitions

def repositoryKind : Str := "repository".toList

def fileKind : Str := "file".toList

/-- An extractor. The root of the repository is not its to name. -/
structure Extractor where
  name : Str
  version : Str
  supports : Str → Bool
  extract : Str → List UInt8 → ExtractionResult
  kinds : ∀ path source, ∀ n ∈ (extract path source).nodes, n.nodeKind ≠ repositoryKind

/-- `ExtractionPipeline`, which is not built with a budget of nothing. -/
structure ExtractionPipeline where
  extractors : List Extractor
  maxSourceBytes : Nat
  positive : 1 ≤ maxSourceBytes

/-- What `iter_run` raises. -/
inductive PipelineError where
  | canonical (e : CanonicalError)
  | multipleExtractors (path : Str)

/-- The inventory's own result. -/
def inventoryResult (nodes : List ExtractedNode) (diagnostics : List ExtractedDiagnostic) :
    ProducedExtraction :=
  { producerName := "repository-inventory".toList
    producerVersion := "1.1.0".toList
    result := { nodes := nodes, observations := [], diagnostics := diagnostics } }

/-- The diagnostic of a path that leaves the repository. -/
def pathEscape : ExtractedDiagnostic :=
  { code := "RI-SEC-PATH-ESCAPE".toList
    category := "path escape".toList
    severity := "error".toList
    message := "source path is absolute or escapes the repository root".toList
    path := none
    span := none
    subject := none }

/-- The diagnostic of a file over the budget. -/
def limitSkip (path fileKey : Str) : ExtractedDiagnostic :=
  { code := "RI-LIMIT-SKIP".toList
    category := "resource-limit skip".toList
    severity := "info".toList
    message := "file exceeds the configured source-size budget".toList
    path := some path
    span := none
    subject := some fileKey }

/-- `_language`. -/
def language (path : Str) : Option Str :=
  if endsWith path ".py".toList then some "python".toList
  else if endsWith path ".ts".toList || endsWith path ".tsx".toList then some "typescript".toList
  else none

/-- The node of the repository itself. -/
def repositoryNode (evidence : ExtractedEvidence) : ExtractedNode :=
  { nodeKind := repositoryKind
    stableKey := "repo:root".toList
    name := some "repository".toList
    language := none
    evidence := [evidence]
    properties := none }

def ExtractedNode.isFile (fileKey : Str) (n : ExtractedNode) : Bool :=
  n.nodeKind = fileKind && n.stableKey = fileKey

def ExtractedNode.isRepository (n : ExtractedNode) : Bool :=
  n.nodeKind = repositoryKind && n.stableKey = "repo:root".toList

variable [Unicode] [Hashing]

/-- The key of a file. -/
def keyOfFile (path : Str) : Except PipelineError Str :=
  match normalizeStableKey fileKind ("file:".toList ++ path) with
  | .ok key => .ok key
  | .error e => .error (.canonical e)

/-- `decode_source` as it is called by the inventory. It catches a path that escapes, but not
    a path that is no key. -/
def decode (path : Str) (source : List UInt8) :
    Except PipelineError (Except ExtractedDiagnostic Str) :=
  match normalizeRepoPath path with
  | .error _ => .ok (decodeSource path source)
  | .ok normalized =>
    match normalizeStableKey fileKind ("file:".toList ++ normalized) with
    | .ok _ => .ok (decodeSource path source)
    | .error (.pathEscape _) => .ok (decodeSource path source)
    | .error e => .error (.canonical e)

/-- `_whole_file_evidence`. -/
def wholeFile (path : Str) (source : List UInt8) :
    Except PipelineError (Option ExtractedEvidence) := do
  let _ ← decode path source
  .ok (wholeFileEvidence path source)

/-- `_file_node`. -/
def fileNode (path : Str) (evidence : ExtractedEvidence) (source : List UInt8) :
    Except PipelineError ExtractedNode := do
  let key ← keyOfFile path
  .ok
    { nodeKind := fileKind
      stableKey := key
      name := some (basename path)
      language := language path
      evidence := [evidence]
      properties := some (contentProperty source) }

/-- The node of the repository, with the first file that is text, and the evidence from then on. -/
def repositoryRoot (known : Option ExtractedEvidence) (path : Str) (source : List UInt8) :
    Except PipelineError (Option ExtractedEvidence × List ExtractedNode) :=
  match known with
  | some evidence => .ok (some evidence, [])
  | none => do
    match ← wholeFile path source with
    | none => .ok (none, [])
    | some evidence =>
      .ok (some (repoEvidence evidence), [repositoryNode (repoEvidence evidence)])

/-- The file node beside a result that says something, but not about the file itself. -/
def sharedFile (fileKey path : Str) (source : List UInt8) (result : ExtractionResult) :
    Except PipelineError (List ExtractedNode) :=
  if result.nodes = [] ∨ result.nodes.any (ExtractedNode.isFile fileKey) then .ok []
  else do
    match ← wholeFile path source with
    | none => .ok []
    | some evidence => do
      let node ← fileNode path evidence source
      .ok [node]

/-- The results for a file that an extractor supports. -/
def extracted (fileKey path : Str) (source : List UInt8) (roots : List ExtractedNode)
    (e : Extractor) : Except PipelineError (List ProducedExtraction) := do
  let result := e.extract path source
  let files ← sharedFile fileKey path source result
  .ok ((if roots ++ files = [] then [] else [inventoryResult (roots ++ files) []]) ++
    [{ producerName := e.name, producerVersion := e.version, result := result }])

/-- The results for a file that nobody supports. -/
def inventoried (fileKey path : Str) (source : List UInt8) (roots : List ExtractedNode) :
    Except PipelineError (List ProducedExtraction) := do
  match ← decode path source with
  | .error d => .ok [inventoryResult roots [{ d with subject := some fileKey }]]
  | .ok text =>
    let node ← fileNode path
      { path := path
        startLine := 1
        endLine := logicalLineCount text
        logicalLineCount := logicalLineCount text
        granularity := "file".toList } source
    .ok [inventoryResult (roots ++ [node]) []]

/-- What one source yields, after the evidence for the repository that is already `known`. -/
def ExtractionPipeline.produce (p : ExtractionPipeline) (known : Option ExtractedEvidence)
    (s : Str × List UInt8) :
    Except PipelineError (Option ExtractedEvidence × List ProducedExtraction) :=
  match normalizeRepoPath s.1 with
  | .error _ => .ok (known, [inventoryResult [] [pathEscape]])
  | .ok path => do
    let (known, roots) ← repositoryRoot known path s.2
    let fileKey ← keyOfFile path
    if p.maxSourceBytes < s.2.length then
      .ok (known, [inventoryResult roots [limitSkip path fileKey]])
    else
      match p.extractors.filter (fun e => e.supports path) with
      | _ :: _ :: _ => .error (.multipleExtractors path)
      | [e] => do
        let results ← extracted fileKey path s.2 roots e
        .ok (known, results)
      | [] => do
        let results ← inventoried fileKey path s.2 roots
        .ok (known, results)

/-- `iter_run`, with what each source yields. -/
def ExtractionPipeline.iterRun (p : ExtractionPipeline) (known : Option ExtractedEvidence) :
    List (Str × List UInt8) → Except PipelineError (List (List ProducedExtraction))
  | [] => .ok []
  | s :: sources => do
    let (known, results) ← p.produce known s
    let rest ← p.iterRun known sources
    .ok (results :: rest)

end Definitions

section Statements

variable [Unicode] [Hashing]

/-- A result that has the file node of a source. -/
def HasFile (s : Str × List UInt8) (item : ProducedExtraction) : Prop :=
  ∃ path key, normalizeRepoPath s.1 = .ok path ∧ keyOfFile path = .ok key ∧
    item.result.nodes.any (ExtractedNode.isFile key) = true

def IsText (source : List UInt8) : Prop :=
  0 ∉ source ∧ ∃ text, source = utf8 text

/-- The extractor of a source has nothing to report on it. It gives no diagnostic, and no node
    either unless the source is not even text. -/
def Silent (p : ExtractionPipeline) (s : Str × List UInt8) : Prop :=
  ∃ path, ∃ e ∈ p.extractors, normalizeRepoPath s.1 = .ok path ∧ e.supports path ∧
    (e.extract path s.2).diagnostics = [] ∧ ((e.extract path s.2).nodes = [] ∨ ¬ IsText s.2)

/-- A source is answered for by a file node, by a diagnostic, or by the silence of its
    extractor, and only one of its results has its file node. -/
structure Accounted (p : ExtractionPipeline) (s : Str × List UInt8)
    (results : List ProducedExtraction) : Prop where
  reported : (∃ item ∈ results, HasFile s item) ∨
    (∃ item ∈ results, item.result.diagnostics ≠ []) ∨ Silent p s
  once : results.Pairwise (fun item other => ¬ (HasFile s item ∧ HasFile s other))

/-- How often the root of the repository is among the nodes of some results. -/
def rootCount (results : List ProducedExtraction) : Nat :=
  (results.map (fun item => item.result.nodes.countP ExtractedNode.isRepository)).sum

/-- A source within the repository that is text. -/
def Decodable (s : Str × List UInt8) : Prop :=
  (∃ path, normalizeRepoPath s.1 = .ok path) ∧ IsText s.2

end Statements

section Sources

variable [Unicode]

theorem wholeFileEvidence_isSome (path : Str) (source : List UInt8) :
    (wholeFileEvidence path source).isSome ↔ IsText source := by
  unfold wholeFileEvidence
  constructor
  · intro h
    cases hdecode : decodeSource path source with
    | error d =>
      rw [hdecode] at h
      exact absurd h Bool.false_ne_true
    | ok text => exact ⟨(decodeSource_eq_ok.mp hdecode).1, text, (decodeSource_eq_ok.mp hdecode).2⟩
  · rintro ⟨hzero, text, htext⟩
    rw [decodeSource_eq_ok.mpr ⟨hzero, htext⟩]
    rfl

end Sources

section Keys

variable [Unicode] [Hashing] {raw path key : Str} {source : List UInt8}

omit [Hashing] in
/-- A path that has a file key can be decoded under. -/
theorem decode_ok (hpath : normalizeRepoPath raw = .ok path) (hkey : keyOfFile path = .ok key) :
    decode path source = .ok (decodeSource path source) := by
  unfold decode
  rw [normalizeRepoPath_again hpath]
  by_cases hdrive : driveLike path
  · rw [if_pos hdrive]
  · rw [if_neg hdrive]
    unfold keyOfFile at hkey
    cases hform : normalizeStableKey fileKind ("file:".toList ++ path) with
    | error e =>
      rw [hform] at hkey
      cases hkey
    | ok normalized => simp only [hform]

omit [Hashing] in
theorem wholeFile_ok (hpath : normalizeRepoPath raw = .ok path) (hkey : keyOfFile path = .ok key) :
    wholeFile path source = .ok (wholeFileEvidence path source) := by
  rw [wholeFile, decode_ok hpath hkey]
  rfl

theorem fileNode_ok (hkey : keyOfFile path = .ok key) (evidence : ExtractedEvidence)
    (source : List UInt8) :
    ∃ n, fileNode path evidence source = .ok n ∧ n.isFile key = true ∧ n.isRepository = false := by
  rw [fileNode, hkey]
  refine ⟨_, rfl, ?_, ?_⟩
  · simp [ExtractedNode.isFile]
  · have hne : fileKind ≠ repositoryKind := by decide
    simp [ExtractedNode.isRepository, hne]

end Keys

section Counts

theorem rootCount_cons (item : ProducedExtraction) (results : List ProducedExtraction) :
    rootCount (item :: results) =
      item.result.nodes.countP ExtractedNode.isRepository + rootCount results := by
  simp [rootCount]

theorem rootCount_append (results rest : List ProducedExtraction) :
    rootCount (results ++ rest) = rootCount results + rootCount rest := by
  simp [rootCount]

/-- No extractor names the root of the repository. -/
theorem countP_extract (e : Extractor) (path : Str) (source : List UInt8) :
    (e.extract path source).nodes.countP ExtractedNode.isRepository = 0 := by
  rw [countP_eq_zero]
  intro n hn hroot
  rw [ExtractedNode.isRepository, Bool.and_eq_true, decide_eq_true_eq] at hroot
  exact e.kinds path source n hn hroot.1

theorem inventoryResult_nodes (nodes : List ExtractedNode)
    (diagnostics : List ExtractedDiagnostic) :
    (inventoryResult nodes diagnostics).result.nodes = nodes := rfl

theorem rootCount_inventoryResult (nodes : List ExtractedNode)
    (diagnostics : List ExtractedDiagnostic) :
    rootCount [inventoryResult nodes diagnostics] = nodes.countP ExtractedNode.isRepository := by
  simp [rootCount, inventoryResult_nodes]

theorem rootCount_inventory (nodes : List ExtractedNode) :
    rootCount (if nodes = [] then [] else [inventoryResult nodes []]) =
      nodes.countP ExtractedNode.isRepository := by
  by_cases hnil : nodes = []
  · rw [if_pos hnil, hnil]
    rfl
  · rw [if_neg hnil, rootCount_inventoryResult]

end Counts

section Steps

variable [Unicode] [Hashing] {p : ExtractionPipeline} {s : Str × List UInt8} {path key : Str}

variable {item : ProducedExtraction}

omit [Hashing] in
theorem hasFile_iff (hpath : normalizeRepoPath s.1 = .ok path) (hkey : keyOfFile path = .ok key) :
    HasFile s item ↔ item.result.nodes.any (ExtractedNode.isFile key) = true := by
  constructor
  · rintro ⟨path', key', hpath', hkey', hfile⟩
    rw [hpath] at hpath'
    rw [← Except.ok.inj hpath', hkey] at hkey'
    rw [Except.ok.inj hkey']
    exact hfile
  · intro hfile
    exact ⟨path, key, hpath, hkey, hfile⟩

omit [Hashing] in
theorem accounted_one (h : HasFile s item ∨ item.result.diagnostics ≠ []) :
    Accounted p s [item] := by
  refine ⟨?_, pairwise_singleton _ _⟩
  rcases h with hfile | hdiagnostics
  · exact .inl ⟨item, mem_singleton_self item, hfile⟩
  · exact .inr (.inl ⟨item, mem_singleton_self item, hdiagnostics⟩)

omit [Hashing] in
/-- What an extractor and the inventory say about a file. -/
theorem accounted_pair (hpath : normalizeRepoPath s.1 = .ok path) (hkey : keyOfFile path = .ok key)
    {nodes : List ExtractedNode} (honce : ¬ (nodes.any (ExtractedNode.isFile key) ∧
      item.result.nodes.any (ExtractedNode.isFile key)))
    (hreported : nodes.any (ExtractedNode.isFile key) ∨
      item.result.nodes.any (ExtractedNode.isFile key) ∨ item.result.diagnostics ≠ [] ∨
      Silent p s) :
    Accounted p s ((if nodes = [] then [] else [inventoryResult nodes []]) ++ [item]) := by
  have hitem : item ∈ (if nodes = [] then [] else [inventoryResult nodes []]) ++ [item] :=
    mem_append_right _ (mem_singleton_self item)
  constructor
  · rcases hreported with hnodes | hfile | hdiagnostics | hsilent
    · refine .inl ⟨inventoryResult nodes [], ?_, (hasFile_iff hpath hkey).mpr hnodes⟩
      have hne : nodes ≠ [] := by
        intro e
        rw [e] at hnodes
        exact Bool.false_ne_true hnodes
      rw [if_neg hne]
      exact mem_cons_self
    · exact .inl ⟨item, hitem, (hasFile_iff hpath hkey).mpr hfile⟩
    · exact .inr (.inl ⟨item, hitem, hdiagnostics⟩)
    · exact .inr (.inr hsilent)
  · by_cases hnil : nodes = []
    · rw [if_pos hnil]
      exact pairwise_singleton _ _
    · rw [if_neg hnil, singleton_append, pairwise_pair, hasFile_iff hpath hkey,
        hasFile_iff hpath hkey]
      exact honce

/-- The file node beside a result, or why there is none. -/
theorem sharedFile_ok (hpath : normalizeRepoPath s.1 = .ok path) (hkey : keyOfFile path = .ok key)
    (result : ExtractionResult) :
    ∃ files, sharedFile key path s.2 result = .ok files ∧
      files.countP ExtractedNode.isRepository = 0 ∧
      (files = [] ∧ (result.nodes = [] ∨ result.nodes.any (ExtractedNode.isFile key) ∨
        ¬ IsText s.2) ∨
      files.any (ExtractedNode.isFile key) ∧
        ¬ result.nodes.any (ExtractedNode.isFile key)) := by
  unfold sharedFile
  by_cases hskip : result.nodes = [] ∨ result.nodes.any (ExtractedNode.isFile key)
  · rw [if_pos hskip]
    refine ⟨[], rfl, rfl, .inl ⟨rfl, ?_⟩⟩
    exact hskip.imp_right .inl
  · rw [if_neg hskip, wholeFile_ok hpath hkey, ok_bind]
    rw [not_or] at hskip
    cases hwhole : wholeFileEvidence path s.2 with
    | none =>
      refine ⟨[], rfl, rfl, .inl ⟨rfl, .inr (.inr (fun htext => ?_))⟩⟩
      have hsome := (wholeFileEvidence_isSome path s.2).mpr htext
      rw [hwhole] at hsome
      exact Bool.false_ne_true hsome
    | some evidence =>
      rcases fileNode_ok hkey evidence s.2 with ⟨n, hn, hfile, hroot⟩
      simp only [hn, ok_bind]
      refine ⟨[n], rfl, ?_, .inr ⟨?_, hskip.2⟩⟩
      · rw [countP_singleton, hroot]
        rfl
      · rw [any_cons, hfile]
        rfl

/-- A file that an extractor supports. -/
theorem extracted_ok (hpath : normalizeRepoPath s.1 = .ok path) (hkey : keyOfFile path = .ok key)
    {e : Extractor} (he : e ∈ p.extractors) (hs : e.supports path) {roots : List ExtractedNode}
    (hroots : roots.any (ExtractedNode.isFile key) = false) :
    ∃ results, extracted key path s.2 roots e = .ok results ∧ Accounted p s results ∧
      rootCount results = roots.countP ExtractedNode.isRepository := by
  rcases sharedFile_ok hpath hkey (e.extract path s.2) with ⟨files, hfiles, hzero, hwhy⟩
  rw [extracted, hfiles]
  refine ⟨_, rfl, accounted_pair hpath hkey ?_ ?_, ?_⟩
  · rw [any_append, hroots, Bool.false_or]
    rintro ⟨hfile, hresult⟩
    rcases hwhy with ⟨hnil, -⟩ | ⟨-, hnot⟩
    · rw [hnil] at hfile
      exact Bool.false_ne_true hfile
    · exact hnot hresult
  · rw [any_append, hroots, Bool.false_or]
    rcases hwhy with ⟨-, hwhy⟩ | ⟨hfile, -⟩
    · by_cases hfile : (e.extract path s.2).nodes.any (ExtractedNode.isFile key) = true
      · exact .inr (.inl hfile)
      · by_cases hdiagnostics : (e.extract path s.2).diagnostics = []
        · refine .inr (.inr (.inr ⟨path, e, he, hpath, hs, hdiagnostics, ?_⟩))
          rcases hwhy with hnil | hany | htext
          · exact .inl hnil
          · exact absurd hany hfile
          · exact .inr htext
        · exact .inr (.inr (.inl hdiagnostics))
    · exact .inl hfile
  · rw [rootCount_append, rootCount_inventory, rootCount_cons, countP_extract, countP_append,
      hzero]
    simp [rootCount]

/-- A file that nobody supports. -/
theorem inventoried_ok (hpath : normalizeRepoPath s.1 = .ok path) (hkey : keyOfFile path = .ok key)
    (roots : List ExtractedNode) :
    ∃ results, inventoried key path s.2 roots = .ok results ∧ Accounted p s results ∧
      rootCount results = roots.countP ExtractedNode.isRepository := by
  rw [inventoried, decode_ok hpath hkey, ok_bind]
  cases hdecode : decodeSource path s.2 with
  | error d =>
    exact ⟨_, rfl, accounted_one (.inr (cons_ne_nil _ _)), rootCount_inventoryResult _ _⟩
  | ok text =>
    rcases fileNode_ok hkey
      { path := path
        startLine := 1
        endLine := logicalLineCount text
        logicalLineCount := logicalLineCount text
        granularity := "file".toList } s.2 with ⟨n, hn, hfile, hroot⟩
    simp only [hn, ok_bind]
    refine ⟨_, rfl, accounted_one (.inl ((hasFile_iff hpath hkey).mpr ?_)), ?_⟩
    · rw [inventoryResult_nodes, any_append, any_cons, hfile]
      simp
    · rw [rootCount_inventoryResult, countP_append, countP_singleton, hroot]
      simp

end Steps

section Runs

variable [Unicode] [Hashing]

/-- A source whose path, if it is in the repository, has a file key and one extractor at most. -/
def Accepted (p : ExtractionPipeline) (s : Str × List UInt8) : Prop :=
  ∀ path, normalizeRepoPath s.1 = .ok path →
    (∃ key, keyOfFile path = .ok key) ∧ (p.extractors.filter (fun e => e.supports path)).length ≤ 1

/-- Whether there is evidence for the repository, as a number. -/
def found (known : Option ExtractedEvidence) : Nat :=
  if known.isSome then 1 else 0

variable {path : Str}

omit [Hashing] in
/-- The root of the repository is named once, with the first evidence. -/
theorem repositoryRoot_ok {raw key : Str} (hpath : normalizeRepoPath raw = .ok path)
    (hkey : keyOfFile path = .ok key) (source : List UInt8) (known : Option ExtractedEvidence) :
    ∃ after roots, repositoryRoot known path source = .ok (after, roots) ∧
      roots.any (ExtractedNode.isFile key) = false ∧
      found known + roots.countP ExtractedNode.isRepository = found after ∧
      (after.isSome ↔ known.isSome ∨ IsText source) := by
  cases known with
  | some evidence =>
    refine ⟨some evidence, [], rfl, rfl, rfl, ?_⟩
    simp
  | none =>
    unfold repositoryRoot
    simp only [wholeFile_ok hpath hkey, ok_bind]
    have htext := wholeFileEvidence_isSome path source
    cases hwhole : wholeFileEvidence path source with
    | none =>
      rw [hwhole] at htext
      refine ⟨none, [], rfl, rfl, rfl, ?_⟩
      rw [← htext, or_self]
    | some evidence =>
      rw [hwhole] at htext
      refine ⟨_, _, rfl, ?_, ?_, ?_⟩
      · have hkind : repositoryKind ≠ fileKind := by decide
        simp [ExtractedNode.isFile, repositoryNode, hkind]
      · simp [found, ExtractedNode.isRepository, repositoryNode]
      · rw [← htext]
        simp

variable {p : ExtractionPipeline} {s : Str × List UInt8}

omit [Hashing] in
theorem not_decodable {e : CanonicalError} (h : normalizeRepoPath s.1 = .error e) :
    ¬ Decodable s := by
  rintro ⟨⟨path, hpath⟩, -⟩
  rw [h] at hpath
  cases hpath

omit [Hashing] in
theorem decodable_iff (h : normalizeRepoPath s.1 = .ok path) : Decodable s ↔ IsText s.2 :=
  ⟨fun hs => hs.2, fun hs => ⟨⟨path, h⟩, hs⟩⟩

/-- One source of the run. -/
theorem produce_ok (h : Accepted p s) (known : Option ExtractedEvidence) :
    ∃ after results, p.produce known s = .ok (after, results) ∧ Accounted p s results ∧
      found known + rootCount results = found after ∧
      (after.isSome ↔ known.isSome ∨ Decodable s) := by
  unfold ExtractionPipeline.produce
  cases hpath : normalizeRepoPath s.1 with
  | error e =>
    refine ⟨_, _, rfl, accounted_one (.inr (cons_ne_nil _ _)), ?_, ?_⟩
    · rw [rootCount_inventoryResult, countP_nil, Nat.add_zero]
    · simp [not_decodable hpath]
  | ok path =>
    rcases h path hpath with ⟨⟨key, hkey⟩, hone⟩
    rcases repositoryRoot_ok hpath hkey s.2 known with
      ⟨after, roots, hroot, hfile, hfound, hafter⟩
    rw [decodable_iff hpath]
    simp only [hroot, hkey, ok_bind]
    by_cases hlimit : p.maxSourceBytes < s.2.length
    · rw [if_pos hlimit]
      refine ⟨_, _, rfl, accounted_one (.inr (cons_ne_nil _ _)), ?_, hafter⟩
      rw [rootCount_inventoryResult, hfound]
    · rw [if_neg hlimit]
      cases hmatches : p.extractors.filter (fun e => e.supports path) with
      | nil =>
        rcases inventoried_ok (p := p) hpath hkey roots with ⟨results, hresults, hall, hcount⟩
        simp only [hresults, ok_bind]
        refine ⟨_, _, rfl, hall, ?_, hafter⟩
        rw [hcount, hfound]
      | cons e others =>
        cases others with
        | nil =>
          have he : e ∈ p.extractors.filter (fun e => e.supports path) := by
            rw [hmatches]
            exact mem_singleton_self e
          rcases mem_filter.mp he with ⟨hmem, hs⟩
          rcases extracted_ok hpath hkey hmem hs hfile with ⟨results, hresults, hall, hcount⟩
          simp only [hresults, ok_bind]
          refine ⟨_, _, rfl, hall, ?_, hafter⟩
          rw [hcount, hfound]
        | cons f others =>
          rw [hmatches] at hone
          simp only [length_cons] at hone
          omega

/-- The run, from whatever evidence there is for the repository. -/
theorem iterRun_ok {sources : List (Str × List UInt8)} (h : ∀ s ∈ sources, Accepted p s)
    (known : Option ExtractedEvidence) :
    ∃ yields, p.iterRun known sources = .ok yields ∧ List.Forall₂ (Accounted p) sources yields ∧
      found known + rootCount yields.flatten ≤ 1 ∧
      (found known + rootCount yields.flatten = 1 ↔
        known.isSome ∨ ∃ s ∈ sources, Decodable s) := by
  induction sources generalizing known with
  | nil =>
    refine ⟨[], rfl, List.Forall₂.nil, ?_, ?_⟩
    · simp only [flatten_nil, rootCount, map_nil, sum_nil, Nat.add_zero, found]
      split <;> omega
    · simp only [flatten_nil, rootCount, map_nil, sum_nil, Nat.add_zero, found,
        not_mem_nil, false_and, exists_false, or_false]
      split
      · simp only [*]
      · simp only [*, Bool.false_eq_true, iff_false]
        omega
  | cons s sources ih =>
    rcases produce_ok (h s mem_cons_self) known with
      ⟨after, results, hproduce, hall, hfound, hafter⟩
    rcases ih (fun t ht => h t (mem_cons_of_mem s ht)) after with
      ⟨yields, hrun, hrest, hle, hiff⟩
    refine ⟨results :: yields, ?_, List.Forall₂.cons hall hrest, ?_, ?_⟩
    · simp only [ExtractionPipeline.iterRun, hproduce, hrun, ok_bind]
    · rw [flatten_cons, rootCount_append, ← Nat.add_assoc, hfound]
      exact hle
    · rw [flatten_cons, rootCount_append, ← Nat.add_assoc, hfound, hiff, hafter,
        exists_mem_cons_iff, or_assoc]

end Runs

section Accounts

/-- Every source of a run is answered for, and the root of the repository is named once if a
    source of the repository is text, and not otherwise. -/
theorem iterRun_accounts [Unicode] [Hashing] (p : ExtractionPipeline)
    (sources : List (Str × List UInt8)) (h : ∀ s ∈ sources, Accepted p s) :
    ∃ yields, p.iterRun none sources = .ok yields ∧ List.Forall₂ (Accounted p) sources yields ∧
      rootCount yields.flatten ≤ 1 ∧
      (rootCount yields.flatten = 1 ↔ ∃ s ∈ sources, Decodable s) := by
  rcases iterRun_ok h none with ⟨yields, hrun, hall, hle, hiff⟩
  simp only [found, Option.isSome_none, Bool.false_eq_true, if_false, Nat.zero_add,
    false_or] at hle hiff
  exact ⟨yields, hrun, hall, hle, hiff⟩

/-- A pipeline without extractors, for a text file in the root. -/
def plainPipeline : ExtractionPipeline where
  extractors := []
  maxSourceBytes := 512
  positive := by decide

/-- An extractor that finds a function in every file of its language. -/
def functionExtractor : Extractor where
  name := "python".toList
  version := "1.0.0".toList
  supports := fun path => ".py".toList.isSuffixOf path
  extract := fun path _ =>
    { nodes :=
        [{ nodeKind := "symbol".toList
           stableKey := path ++ "::f".toList
           name := some "f".toList
           language := some "python".toList
           evidence := []
           properties := none }]
      observations := []
      diagnostics := [] }
  kinds path source n hn := by
    rw [List.mem_singleton.mp hn]
    exact (by decide : "symbol".toList ≠ repositoryKind)

/-- A pipeline with that extractor. -/
def pythonPipeline : ExtractionPipeline :=
  { plainPipeline with extractors := [functionExtractor] }

/-- A path that leaves the repository, a file without text, one of the language and one of none. -/
def mixedSources : List (Str × List UInt8) :=
  [("../a.py".toList, utf8 "x".toList), ("b.bin".toList, [0, 1]),
    ("src/c.py".toList, utf8 "x".toList), ("d".toList, utf8 "y".toList)]

theorem accepted_ok {p : ExtractionPipeline} {raw path key : Str}
    (hpath : @normalizeRepoPath asciiText raw = .ok path)
    (hkey : @keyOfFile asciiText path = .ok key)
    (hone : (p.extractors.filter (fun e => e.supports path)).length ≤ 1) (source : List UInt8) :
    @Accepted asciiText p (raw, source) := by
  intro path' hpath'
  rw [hpath] at hpath'
  cases hpath'
  exact ⟨⟨key, hkey⟩, hone⟩

/-- All four are answered for, and the root of the repository is named once. -/
theorem iterRun_accounts_mixed :
    ∃ yields, @ExtractionPipeline.iterRun asciiText sha256 pythonPipeline none mixedSources =
        .ok yields ∧
      List.Forall₂ (@Accounted asciiText pythonPipeline) mixedSources yields ∧
      rootCount yields.flatten = 1 := by
  rcases @iterRun_accounts asciiText sha256 pythonPipeline mixedSources (fun s hs => by
      simp only [mixedSources, mem_cons, not_mem_nil, or_false] at hs
      rcases hs with rfl | rfl | rfl | rfl
      · intro path hpath
        cases hpath
      · exact accepted_ok rfl rfl (by decide) _
      · exact accepted_ok rfl rfl (by decide) _
      · exact accepted_ok rfl rfl (by decide) _) with ⟨yields, hrun, hall, -, hroot⟩
  refine ⟨yields, hrun, hall, hroot.mpr ⟨("d".toList, utf8 "y".toList), ?_, ⟨_, rfl⟩, ?_⟩⟩
  · exact mem_of_getElem? (i := 3) rfl
  · exact ⟨by decide, "y".toList, rfl⟩

/-- An extractor that has nothing to say about any file, as for `{}` in a `package.json`. -/
def silentExtractor : Extractor where
  name := "dependency-manifest".toList
  version := "1.2.0".toList
  supports := fun _ => true
  extract := fun _ _ => { nodes := [], observations := [], diagnostics := [] }
  kinds := fun _ _ _ hn => absurd hn List.not_mem_nil

/-- What is yielded for that file: the root of the repository, and the empty result. -/
def silentYield : List ProducedExtraction :=
  [inventoryResult
      [repositoryNode
        { path := "package.json".toList
          startLine := 1
          endLine := 1
          logicalLineCount := 1
          granularity := "span".toList }] [],
    { producerName := "dependency-manifest".toList
      producerVersion := "1.2.0".toList
      result := { nodes := [], observations := [], diagnostics := [] } }]

/-- A text of an absolute path names no repository, a file may be passed over in silence, and
    two extractors for one file end the run. -/
theorem iterRun_unaccounted :
    (∃ yields, @ExtractionPipeline.iterRun asciiText sha256 plainPipeline none
        [("/a".toList, utf8 "x".toList)] = .ok yields ∧ IsText (utf8 "x".toList) ∧
      rootCount yields.flatten = 0) ∧
    (∃ yields, @ExtractionPipeline.iterRun asciiText sha256
        { plainPipeline with extractors := [silentExtractor] } none
        [("package.json".toList, utf8 "{}".toList)] = .ok yields ∧
      ∀ item ∈ yields.flatten, item.result.diagnostics = [] ∧
        ∀ n ∈ item.result.nodes, n.nodeKind ≠ fileKind) ∧
    @ExtractionPipeline.iterRun asciiText sha256
        { plainPipeline with extractors := [silentExtractor, silentExtractor] } none
        [("package.json".toList, utf8 "{}".toList)] =
      .error (.multipleExtractors "package.json".toList) := by
  refine ⟨⟨_, rfl, ⟨by decide, "x".toList, rfl⟩, ?_⟩, ⟨[silentYield], rfl, ?_⟩, rfl⟩
  · simp [rootCount_inventoryResult]
  · intro item hitem
    simp only [flatten_cons, flatten_nil, append_nil, silentYield, mem_cons,
      not_mem_nil, or_false] at hitem
    rcases hitem with rfl | rfl
    · refine ⟨rfl, fun n hn => ?_⟩
      rw [mem_singleton.mp hn]
      decide
    · exact ⟨rfl, fun n hn => absurd hn not_mem_nil⟩

end Accounts

end Extraction

end Partha
