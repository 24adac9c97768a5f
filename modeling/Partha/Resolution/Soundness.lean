import Mathlib.Tactic.ByContra
import Mathlib.Tactic.Tauto
import Partha.Resolution.Order
import Partha.Resolution.RelativeImports

/-!
# Soundness of Resolution

What every input of the resolver becomes, beside what is written of it: an edge
for the one candidate there is, and otherwise a diagnostic.

Each input has one outcome. Whether it is the right one depends on the
candidates, and in four places the resolver takes more of them than are
documented. A package is looked for in the registries of both languages. A name
that is imported and is no key of the file is looked for among all symbols of
the file, those nested in another included. A key of the same file is taken
as it stands, though the name after the path may have a dot. And a relative
specifier is looked for where it does not lead, if it climbs past the root.

A stray candidate is not always seen. Among two documented candidates one more
makes no difference, and several strays are no edge where there was none.
`Harmless` says when they make none, for each kind of input.

## Main definitions

* `InputKind`: The kinds of inputs that become relationships.
* `factsOf`: What the resolver makes of an input.
* `candidatesOf`: The candidates that are documented.
* `ReferenceTarget`: What an edge of a reference may point to.
* `Sound`: Every input has one outcome, and the right one.
* `Harmless`: The stray candidates of an input make no difference.

## Theorems

* `resolve_inputs`: Every input has one outcome.
* `keepsVerdict_iff`: When stray candidates make no difference.
* `soundAt_iff`: The outcome of an input is right if they make none.
* `resolution_sound`: So is a pass, if they make none for any input.
* `resolution_borrows`: A Python import that finds an npm package.
-/

namespace Partha

namespace Resolution

open Canonical Extraction SortKeys List

section Kinds

/-- The kinds of the observations that become relationships, in the order in
    which they are resolved. -/
inductive InputKind where
  | definition
  | imports
  | call
  | implements
  | dependency
  | injects
  | httpCall
  | iacResource
  | route
  deriving DecidableEq, Repr

def InputKind.text : InputKind → String
  | .definition => "definition"
  | .imports => "import"
  | .call => "call"
  | .implements => "implements"
  | .dependency => "dependency"
  | .injects => "injects"
  | .httpCall => "http_call"
  | .iacResource => "iac_resource"
  | .route => "route"

def InputKind.all : List InputKind :=
  [.definition, .imports, .call, .implements, .dependency, .injects, .httpCall, .iacResource,
    .route]

theorem InputKind.mem_all (k : InputKind) : k ∈ InputKind.all := by
  cases k <;> decide

theorem InputKind.text_injective {k k' : InputKind} (h : k.text.toList = k'.text.toList) :
    k = k' := by
  revert h
  cases k <;> cases k' <;> decide

variable [Interpreter]

/-- What the resolver makes of an input. -/
def factsOf (t : Tables) : InputKind → Input → List Fact
  | .definition, i => resolveDefinition t i
  | .imports, i => resolveImport t (bindingsByFile t) i
  | .call, i => resolveCall t (bindingsByFile t) i
  | .implements, i => resolveReference t (bindingsByFile t) "implements".toList i
  | .dependency, i => resolveDependency t i
  | .injects, i => resolveReference t (bindingsByFile t) "injects".toList i
  | .httpCall, i => resolveHttpCall t i
  | .iacResource, i => resolveIacResource t i
  | .route, i => resolveRoute t (bindingsByFile t) (handlersOf t i.observation.subjectKey) i

theorem resolve_eq (t : Tables) : resolve t = InputKind.all.flatMap (fun k =>
    (inputsOf t k.text).map (fun i => (i, factsOf t k i))) := by
  unfold resolve InputKind.all
  simp only [flatMap_cons, flatMap_nil, append_nil, append_assoc]
  rfl

theorem mem_resolve {t : Tables} {p : Input × List Fact} :
    p ∈ resolve t ↔ ∃ k, p.1 ∈ inputsOf t (InputKind.text k) ∧ p.2 = factsOf t k p.1 := by
  rw [resolve_eq]
  simp only [mem_flatMap, mem_map]
  constructor
  · rintro ⟨k, _, i, hi, rfl⟩
    exact ⟨k, hi, rfl⟩
  · rintro ⟨k, hi, hp⟩
    exact ⟨k, k.mem_all, p.1, hi, Prod.ext rfl hp.symm⟩

/-- The inputs that become relationships. -/
def relationshipInputs (t : Tables) : List Input :=
  (inputs t).filter (fun i =>
    InputKind.all.any (fun k => i.observation.observedKind = k.text.toList))

/-- Every input is resolved once. -/
theorem resolve_inputs (t : Tables) : ((resolve t).map (·.1)).Perm (relationshipInputs t) := by
  rw [resolve_eq, map_flatMap]
  simp only [map_map, Function.comp_def, map_id']
  refine Rows.flatMap_filter_perm (inputs t) (fun (k : InputKind) i =>
    i.observation.observedKind = k.text.toList) InputKind.all ?_
  have hdistinct : InputKind.all.Pairwise (fun k k' => k ≠ k') := by decide
  refine hdistinct.imp (fun {k k'} hne i hk => ?_)
  rw [decide_eq_true_eq] at hk
  rw [decide_eq_false_iff_not, hk]
  exact fun h => hne (InputKind.text_injective h)

end Kinds

section Candidates

/-- The stable keys among candidates, each once. -/
def candidateKeys (candidates : List Node) : List Str :=
  sortedSet (candidates.map (·.stableKey))

/-- The path in the key of a file. -/
def filePath (n : Node) : Str :=
  (stripPrefix "file:".toList n.stableKey).getD n.stableKey

/-- A qualified name without an enclosing symbol. -/
def isTopLevel (qualified : Str) : Bool :=
  !qualified.contains '.'

/-- A symbol that no other symbol of the file encloses. -/
def topLevelIn (path : Str) (n : Node) : Bool :=
  (stripPrefix (symbolKey path []) n.stableKey).any isTopLevel

/-- The top-level symbol of a name in a file. -/
def topLevelSymbol (nodes : List Node) (path name : Str) : Option Node :=
  if isTopLevel name then nodeOfKind nodes symbolKind (symbolKey path name) else none

/-- The files that a specifier names: of those it is looked for in, the ones where it leads. -/
def namedFiles (nodes : List Node) (specifier sourcePath : Str) (bindings : List Binding) :
    List Node :=
  (fileNodes nodes specifier sourcePath bindings).filter
    (fun n => leadsTo specifier sourcePath (filePath n))

/-- The files that it is looked for in, and that it does not name. -/
def misnamedFiles (nodes : List Node) (specifier sourcePath : Str) (bindings : List Binding) :
    List Node :=
  (fileNodes nodes specifier sourcePath bindings).filter
    (fun n => !leadsTo specifier sourcePath (filePath n))

/-- The files that the specifier of a binding names. -/
def boundFiles (nodes : List Node) (sourcePath : Str) (b : Binding) : List Node :=
  namedFiles nodes b.specifier sourcePath []

/-- What a file gives under an imported name: its default export, or the
    top-level symbol of the name. -/
def exported (nodes : List Node) (imported path : Str) : List Node :=
  if imported = "default".toList then nodes.filter (fun n => inFile path n && n.defaultExport)
  else (boundSymbols nodes imported path).filter (topLevelIn path)

/-- The symbols of the name that another symbol encloses. -/
def nested (nodes : List Node) (imported path : Str) : List Node :=
  if imported = "default".toList then []
  else (boundSymbols nodes imported path).filter (fun n => !topLevelIn path n)

/-- What a kind of lookup finds through the bindings of a local name. -/
def throughBindings (find : Str → Str → List Node) (nodes : List Node) (sourcePath text : Str)
    (bindings : List Binding) : List Node :=
  (bindings.filter (fun b => b.localName = text)).flatMap (fun b =>
    (boundFiles nodes sourcePath b).flatMap (fun n => find b.imported (filePath n)))

/-- What is found beside that: symbols that another one encloses, and all that is in files that the
    specifier does not name. -/
def strayReferences (nodes : List Node) (sourcePath text : Str) (bindings : List Binding) :
    List Node :=
  throughBindings (nested nodes) nodes sourcePath text bindings ++
    (bindings.filter (fun b => b.localName = text)).flatMap (fun b =>
      (misnamedFiles nodes b.specifier sourcePath []).flatMap (fun n =>
        boundSymbols nodes b.imported (filePath n)))

/-- The documented candidates of a reference. -/
def documentedReferences (nodes : List Node) (text sourcePath : Str) (bindings : List Binding) :
    List Node :=
  match nodeOfKind nodes symbolKind text with
  | some direct => [direct]
  | none => match topLevelSymbol nodes sourcePath text with
    | some sameFile => [sameFile]
    | none => throughBindings (exported nodes) nodes sourcePath text bindings

variable [Interpreter]

/-- The key of a package in the registry of the language of a file. -/
def registryKey (sourcePath package : Str) : Str :=
  if isPython sourcePath then pypiKey package else npmKey package

/-- The key of the package in the other registry. -/
def otherRegistryKey (sourcePath package : Str) : Str :=
  if isPython sourcePath then npmKey package else pypiKey package

/-- The documented candidates of an import. A relative specifier is no package. -/
def documentedImports (nodes : List Node) (specifier sourcePath : Str) (bindings : List Binding) :
    List Node :=
  match namedFiles nodes specifier sourcePath bindings with
  | [] =>
    if startsWith specifier ['.'] then []
    else nodes.filter (fun n => n.nodeKind = dependencyKind ∧
      n.stableKey = registryKey sourcePath (packageRoot specifier sourcePath))
  | files => files

/-- What a relative specifier finds beside them: other files and, if there are no files at all, the
    packages of both registries. -/
def strayImports (nodes : List Node) (specifier sourcePath : Str) (bindings : List Binding) :
    List Node :=
  match fileNodes nodes specifier sourcePath bindings with
  | [] => nodes.filter (fun n => n.nodeKind = dependencyKind ∧
      (n.stableKey = registryKey sourcePath (packageRoot specifier sourcePath) ∨
        n.stableKey = otherRegistryKey sourcePath (packageRoot specifier sourcePath)))
  | _ => misnamedFiles nodes specifier sourcePath bindings

omit [Interpreter] in
/-- The documented candidates of an input with a reference. -/
def documentedOf (t : Tables) (i : Input) : List Node :=
  match referenceSubject t i, referent i with
  | some _, some text => documentedReferences t.nodes text i.evidence.path
      (bindingsByFile t (fileKey i.evidence.path))
  | _, _ => []

/-- The kind of the parent of a symbol. -/
def parentKind (qualified : Str) : Str :=
  if '.' ∈ qualified then symbolKind else fileKind

omit [Interpreter] in
/-- The parent of a definition: the file, or the symbol around it. -/
def definitionParents (t : Tables) (i : Input) : List Node :=
  match nodeOfKind t.nodes symbolKind i.observation.subjectKey with
  | none => []
  | some symbol => match splitDouble symbol.stableKey with
    | none => []
    | some (path, qualified) =>
      (nodeOfKind t.nodes (parentKind qualified) (parentKey path qualified)).toList

def importTargets (t : Tables) (i : Input) : List Node :=
  match sourceFile t.nodes i, referent i with
  | some subject, some specifier => documentedImports t.nodes specifier i.evidence.path
      (bindingsByFile t subject.stableKey)
  | _, _ => []

omit [Interpreter] in
/-- A node of the repository that is declared in it. -/
def declaredTargets (t : Tables) (kind : Str) (i : Input) : List Node :=
  match nodeOfKind t.nodes kind i.observation.subjectKey,
    nodeByKey t.nodes "repo:root".toList with
  | some target, some _ => [target]
  | _, _ => []

omit [Interpreter] in
def serviceTargets (t : Tables) (i : Input) : List Node :=
  match (referent i).bind parseReferent, referenceSubject t i with
  | some origin, some _ =>
    (nodeOfKind t.nodes "service".toList ("svc:".toList ++ origin)).toList
  | _, _ => []

omit [Interpreter] in
/-- What the one handler of a route refers to. -/
def handlerTargets (t : Tables) (i : Input) : List Node :=
  match nodeOfKind t.nodes symbolKind i.observation.subjectKey,
    handlersOf t i.observation.subjectKey with
  | some _, [handler] => match referent handler with
    | some text => documentedReferences t.nodes text handler.evidence.path
        (bindingsByFile t (fileKey handler.evidence.path))
    | none => []
  | _, _ => []

/-- The documented candidates of every kind of input. A shadowed call has none. -/
def candidatesOf (t : Tables) : InputKind → Input → List Node
  | .definition, i => definitionParents t i
  | .imports, i => importTargets t i
  | .call, i => if referenceInputKey i ∈ shadowedCalls t then [] else documentedOf t i
  | .implements, i => documentedOf t i
  | .injects, i => documentedOf t i
  | .dependency, i => declaredTargets t dependencyKind i
  | .httpCall, i => serviceTargets t i
  | .iacResource, i => declaredTargets t "iac_resource".toList i
  | .route, i => handlerTargets t i

end Candidates

section Statements

/-- What an edge of a reference may point to: the symbol that a full stable key
    names, the top-level symbol of the name in the same file, or what a binding
    of the file gives. -/
def ReferenceTarget (t : Tables) (i : Input) (key : Str) : Prop :=
  ∃ text, referent i = some text ∧ ∃ target ∈ t.nodes,
    target.stableKey = key ∧ target.nodeKind = symbolKind ∧
      (key = text ∨ (key = symbolKey i.evidence.path text ∧ isTopLevel text = true) ∨
        ∃ b ∈ bindingsByFile t (fileKey i.evidence.path), b.localName = text ∧
          ∃ file ∈ boundFiles t.nodes i.evidence.path b,
            target ∈ exported t.nodes b.imported (filePath file))

/-- A path of a TypeScript file. -/
def isTypeScript (path : Str) : Bool :=
  endsWith path ".ts".toList || endsWith path ".tsx".toList

/-- What the edges of an input may point to, of which kind and under which key. -/
def ProperTarget (t : Tables) : InputKind → Input → Str → Str → Prop
  | .imports, i, kind, key => kind = dependencyKind →
      (isPython i.evidence.path = true → startsWith key "dep:npm:".toList = false) ∧
        (isTypeScript i.evidence.path = true → startsWith key "dep:pypi:".toList = false)
  | .call, i, _, key => ReferenceTarget t i key
  | .implements, i, _, key => ReferenceTarget t i key
  | .injects, i, _, key => ReferenceTarget t i key
  | .route, i, _, key => ∃ handler ∈ handlersOf t i.observation.subjectKey,
      ReferenceTarget t handler key
  | .definition, _, _, _ => True
  | .dependency, _, _, _ => True
  | .httpCall, _, _, _ => True
  | .iacResource, _, _, _ => True

/-- A fact that, if it is an edge, points to something proper. -/
def Fact.PointsTo (P : Str → Str → Prop) : Fact → Prop
  | .edge _ _ _ objectKind objectKey _ _ => P objectKind objectKey
  | .diagnostic _ _ _ _ _ _ _ => True

/-- The facts of an input are edges, or one diagnostic. They are edges if it has
    one documented candidate, and these are not borrowed. -/
structure Judged (documented : List Node) (P : Str → Str → Prop) (fs : List Fact) : Prop where
  outcome : (fs ≠ [] ∧ ∀ f ∈ fs, f.isEdge = true) ∨ ∃ f, fs = [f] ∧ f.isEdge = false
  edge : (∃ f ∈ fs, f.isEdge = true) ↔ (candidateKeys documented).length = 1
  proper : ∀ f ∈ fs, f.PointsTo P

variable [Interpreter]

/-- The outcome of an input is the right one. -/
def SoundAt (t : Tables) (k : InputKind) (i : Input) (fs : List Fact) : Prop :=
  Judged (candidatesOf t k i) (ProperTarget t k i) fs

/-- Every input has one outcome, and the right one. -/
structure Sound (t : Tables) : Prop where
  inputs : ((resolve t).map (·.1)).Perm (relationshipInputs t)
  outcomes : ∀ p ∈ resolve t, ∀ k, p.1.observation.observedKind = (InputKind.text k).toList →
    SoundAt t k p.1 p.2

omit [Interpreter] in
/-- Strays do not make one candidate of none, nor several of one. -/
def KeepsVerdict (documented strays : List Node) : Prop :=
  match candidateKeys documented with
  | [] => (candidateKeys strays).length ≠ 1
  | [key] => ∀ n ∈ strays, n.stableKey = key
  | _ => True

omit [Interpreter] in
/-- The strays of a reference make no difference. -/
def HarmlessReference (t : Tables) (i : Input) (text : Str) : Prop :=
  nodeOfKind t.nodes symbolKind text = none →
    match nodeOfKind t.nodes symbolKind (symbolKey i.evidence.path text) with
    | some sameFile => isTopLevel text = false →
        candidateKeys (throughBindings (exported t.nodes) t.nodes i.evidence.path text
          (bindingsByFile t (fileKey i.evidence.path))) = [sameFile.stableKey]
    | none => KeepsVerdict
        (throughBindings (exported t.nodes) t.nodes i.evidence.path text
          (bindingsByFile t (fileKey i.evidence.path)))
        (strayReferences t.nodes i.evidence.path text
          (bindingsByFile t (fileKey i.evidence.path)))

omit [Interpreter] in
/-- The node under the key of the parent of a definition has the kind that the
    key says. -/
def HarmlessDefinition (t : Tables) (i : Input) : Prop :=
  ∀ symbol path qualified parent,
    nodeOfKind t.nodes symbolKind i.observation.subjectKey = some symbol →
    splitDouble symbol.stableKey = some (path, qualified) →
    nodeByKey t.nodes (parentKey path qualified) = some parent →
    parent.nodeKind = parentKind qualified

/-- An import names a file, or the other registry does not have the package. If it is relative,
    then its strays make no difference. -/
def HarmlessImport (t : Tables) (i : Input) : Prop :=
  ∀ subject specifier, sourceFile t.nodes i = some subject → referent i = some specifier →
    if startsWith specifier ['.'] then
      KeepsVerdict
        (namedFiles t.nodes specifier i.evidence.path (bindingsByFile t subject.stableKey))
        (strayImports t.nodes specifier i.evidence.path (bindingsByFile t subject.stableKey))
    else
      fileNodes t.nodes specifier i.evidence.path (bindingsByFile t subject.stableKey) = [] →
        ∀ n ∈ t.nodes, n.nodeKind = dependencyKind →
          n.stableKey ≠ otherRegistryKey i.evidence.path (packageRoot specifier i.evidence.path)

omit [Interpreter] in
def HarmlessReferences (t : Tables) (i : Input) : Prop :=
  ∀ subject text, referenceSubject t i = some subject → referent i = some text →
    HarmlessReference t i text

omit [Interpreter] in
def HarmlessRoute (t : Tables) (i : Input) : Prop :=
  ∀ symbol handler text, nodeOfKind t.nodes symbolKind i.observation.subjectKey = some symbol →
    handlersOf t i.observation.subjectKey = [handler] → referent handler = some text →
    HarmlessReference t handler text

/-- The strays of an input make no difference. -/
def Harmless (t : Tables) : InputKind → Input → Prop
  | .definition, i => HarmlessDefinition t i
  | .imports, i => HarmlessImport t i
  | .call, i => referenceInputKey i ∉ shadowedCalls t → HarmlessReferences t i
  | .implements, i => HarmlessReferences t i
  | .injects, i => HarmlessReferences t i
  | .route, i => HarmlessRoute t i
  | .dependency, _ => True
  | .httpCall, _ => True
  | .iacResource, _ => True

end Statements

section Lookups

variable {nodes : List Node}

variable {key specifier sourcePath imported path text : Str} {n : Node} {bindings : List Binding}

theorem nodeByKey_some (hn : (nodes.map (·.stableKey)).Nodup) :
    nodeByKey nodes key = some n ↔ n ∈ nodes ∧ n.stableKey = key :=
  Rows.find?_eq_some hn

theorem nodeOfKind_some (hn : (nodes.map (·.stableKey)).Nodup) {kind : Str} :
    nodeOfKind nodes kind key = some n ↔ n ∈ nodes ∧ n.stableKey = key ∧ n.nodeKind = kind := by
  unfold nodeOfKind
  rw [Option.filter_eq_some_iff, nodeByKey_some hn, decide_eq_true_eq, and_assoc]

theorem fileNodes_subset (h : n ∈ fileNodes nodes specifier sourcePath bindings) :
    n ∈ nodes ∧ n.nodeKind = fileKind := by
  unfold fileNodes at h
  rw [mem_filter, decide_eq_true_eq] at h
  exact ⟨h.1, h.2.1⟩

theorem mem_fileNodes :
    n ∈ fileNodes nodes specifier sourcePath bindings ↔
      n ∈ namedFiles nodes specifier sourcePath bindings ∨
        n ∈ misnamedFiles nodes specifier sourcePath bindings := by
  unfold namedFiles misnamedFiles
  rw [mem_filter, mem_filter]
  cases leadsTo specifier sourcePath (filePath n) <;> simp

/-- A specifier that is not relative leads to wherever it is looked for. -/
theorem namedFiles_bare (h : ¬ startsWith specifier ['.'] = true) :
    namedFiles nodes specifier sourcePath bindings =
      fileNodes nodes specifier sourcePath bindings := by
  refine filter_eq_self.mpr (fun n _ => ?_)
  have hleading : (specifier.takeWhile (fun c => decide (c = '.'))).length = 0 := by
    cases specifier with
    | nil => rfl
    | cons c specifier =>
      have hc : ¬ decide (c = '.') = true := by
        rw [decide_eq_true_eq]
        rintro rfl
        exact h rfl
      exact length_eq_zero_iff.mpr (takeWhile_cons_of_neg hc)
  unfold leadsTo
  simp [hleading]

theorem boundSymbols_subset (hn : (nodes.map (·.stableKey)).Nodup)
    (h : n ∈ boundSymbols nodes imported path) : n ∈ nodes ∧ n.nodeKind = symbolKind := by
  have hinFile : inFile path n = true → n.nodeKind = symbolKind := by
    intro hin
    unfold inFile at hin
    rw [Bool.and_eq_true, decide_eq_true_eq] at hin
    exact hin.1
  unfold boundSymbols at h
  by_cases hdefault : imported = "default".toList
  · rw [if_pos hdefault, mem_filter, Bool.and_eq_true] at h
    exact ⟨h.1, hinFile h.2.1⟩
  · rw [if_neg hdefault] at h
    cases hkey : nodeOfKind nodes symbolKind (symbolKey path imported) with
    | some target =>
      simp only [hkey, mem_singleton] at h
      rw [h]
      rcases (nodeOfKind_some hn).mp hkey with ⟨hmem, _, hkind⟩
      exact ⟨hmem, hkind⟩
    | none =>
      simp only [hkey, mem_filter, Bool.and_eq_true] at h
      exact ⟨h.1, hinFile h.2.1⟩

/-- The symbols that a lookup in a file takes are the documented ones and the
    nested ones. -/
theorem mem_boundSymbols :
    n ∈ boundSymbols nodes imported path ↔
      n ∈ exported nodes imported path ∨ n ∈ nested nodes imported path := by
  unfold exported nested
  by_cases hdefault : imported = "default".toList
  · rw [if_pos hdefault, if_pos hdefault, or_iff_left not_mem_nil]
    unfold boundSymbols
    rw [if_pos hdefault]
  · rw [if_neg hdefault, if_neg hdefault, mem_filter, mem_filter]
    cases topLevelIn path n <;> simp

theorem exported_subset (hn : (nodes.map (·.stableKey)).Nodup)
    (h : n ∈ exported nodes imported path) : n ∈ nodes ∧ n.nodeKind = symbolKind :=
  boundSymbols_subset hn (mem_boundSymbols.mpr (.inl h))

theorem mem_throughBindings {find : Str → Str → List Node} :
    n ∈ throughBindings find nodes sourcePath text bindings ↔
      ∃ b ∈ bindings, b.localName = text ∧ ∃ file ∈ boundFiles nodes sourcePath b,
        n ∈ find b.imported (filePath file) := by
  unfold throughBindings
  simp [and_assoc]

variable [Interpreter]

/-- Of the candidates of a specifier, those that are files. -/
theorem importCandidates_files (specifier sourcePath : Str) :
    (importCandidates nodes specifier sourcePath []).filter (fun n => n.nodeKind = fileKind)
      = fileNodes nodes specifier sourcePath [] := by
  have hfile : ∀ n ∈ fileNodes nodes specifier sourcePath [],
      decide (n.nodeKind = fileKind) = true :=
    fun n hn => decide_eq_true (fileNodes_subset hn).2
  unfold importCandidates
  cases hf : fileNodes nodes specifier sourcePath [] with
  | nil =>
    rw [filter_eq_nil_iff]
    intro n hn hkind
    rw [mem_filter, decide_eq_true_eq] at hn
    rw [decide_eq_true_eq, hn.2.1] at hkind
    exact absurd hkind (by decide)
  | cons file files =>
    rw [hf] at hfile
    exact filter_eq_self.mpr hfile

theorem mem_boundCandidates :
    n ∈ (bindings.filter (fun b => b.localName = text)).flatMap (boundCandidates nodes sourcePath) ↔
      n ∈ throughBindings (exported nodes) nodes sourcePath text bindings ∨
        n ∈ strayReferences nodes sourcePath text bindings := by
  unfold strayReferences
  rw [mem_append, mem_throughBindings, mem_throughBindings]
  unfold boundCandidates boundFiles
  simp only [importCandidates_files, mem_flatMap, mem_filter, decide_eq_true_eq]
  constructor
  · rintro ⟨b, ⟨hb, hlocal⟩, file, hfile, hn⟩
    rcases mem_fileNodes.mp hfile with hnamed | hstray
    · rcases mem_boundSymbols.mp hn with hn | hn
      · exact .inl ⟨b, hb, hlocal, file, hnamed, hn⟩
      · exact .inr (.inl ⟨b, hb, hlocal, file, hnamed, hn⟩)
    · exact .inr (.inr ⟨b, ⟨hb, hlocal⟩, file, hstray, hn⟩)
  · rintro (⟨b, hb, hlocal, file, hfile, hn⟩ | ⟨b, hb, hlocal, file, hfile, hn⟩ |
      ⟨b, hlocal, file, hfile, hn⟩)
    · exact ⟨b, ⟨hb, hlocal⟩, file, mem_fileNodes.mpr (.inl hfile),
        mem_boundSymbols.mpr (.inl hn)⟩
    · exact ⟨b, ⟨hb, hlocal⟩, file, mem_fileNodes.mpr (.inl hfile),
        mem_boundSymbols.mpr (.inr hn)⟩
    · exact ⟨b, hlocal, file, mem_fileNodes.mpr (.inr hfile), hn⟩

theorem importCandidates_subset (h : n ∈ importCandidates nodes specifier sourcePath bindings) :
    n ∈ nodes := by
  unfold importCandidates at h
  cases hf : fileNodes nodes specifier sourcePath bindings with
  | nil =>
    simp only [hf] at h
    exact mem_of_mem_filter h
  | cons file files =>
    simp only [hf] at h
    exact (fileNodes_subset (hf ▸ h)).1

end Lookups

section Verdicts

theorem candidateKeys_nil : candidateKeys [] = [] := by
  decide

variable {candidates : List Node} {key : Str}

theorem mem_candidateKeys :
    key ∈ candidateKeys candidates ↔ ∃ n ∈ candidates, n.stableKey = key := by
  unfold candidateKeys
  rw [mem_sortedSet, mem_map]

theorem candidateKeys_singleton :
    candidateKeys candidates = [key] ↔
      (∃ n ∈ candidates, n.stableKey = key) ∧ ∀ n ∈ candidates, n.stableKey = key := by
  unfold candidateKeys
  rw [sortedSet_eq_singleton, mem_map]
  simp only [forall_mem_map]

theorem candidateKeys_one (n : Node) : candidateKeys [n] = [n.stableKey] := by
  rw [candidateKeys_singleton]
  simp

/-- The verdict on the candidates is that on the documented ones if the strays
    among them make no difference. -/
theorem keepsVerdict_iff {documented strays : List Node}
    (h : ∀ n, n ∈ candidates ↔ n ∈ documented ∨ n ∈ strays) :
    ((candidateKeys candidates).length = 1 ↔ (candidateKeys documented).length = 1) ↔
      KeepsVerdict documented strays := by
  unfold KeepsVerdict
  have hkeys : ∀ key, key ∈ candidateKeys candidates ↔
      key ∈ candidateKeys documented ∨ key ∈ candidateKeys strays := by
    intro key
    simp only [mem_candidateKeys, h, or_and_right, exists_or]
  cases hd : candidateKeys documented with
  | nil =>
    -- The candidates are the strays.
    have hsame : candidateKeys candidates = candidateKeys strays := by
      refine sortedSet_eq_of_mem (fun key => ?_)
      have hkey := hkeys key
      rw [hd, or_iff_right not_mem_nil] at hkey
      unfold candidateKeys at hkey
      rwa [mem_sortedSet, mem_sortedSet] at hkey
    rw [hsame]
    simp
  | cons key rest =>
    have hkey : key ∈ candidateKeys candidates := by
      rw [hkeys, hd]
      exact .inl mem_cons_self
    cases rest with
    | nil =>
      simp only [length_singleton, iff_true]
      rw [length_eq_one_iff]
      constructor
      · rintro ⟨k, hk⟩ n hn
        have hn' : n.stableKey ∈ candidateKeys candidates :=
          (hkeys _).mpr (.inr (mem_candidateKeys.mpr ⟨n, hn, rfl⟩))
        rw [hk, mem_singleton] at hn' hkey
        rw [hn', hkey]
      · intro hall
        refine ⟨key, candidateKeys_singleton.mpr ⟨mem_candidateKeys.mp hkey, fun n hn => ?_⟩⟩
        rcases (h n).mp hn with hdoc | hstray
        · exact (candidateKeys_singleton.mp hd).2 n hdoc
        · exact hall n hstray
    | cons key' rest =>
      simp only [length_cons, iff_true]
      have hkey' : key' ∈ candidateKeys candidates := by
        rw [hkeys, hd]
        exact .inl (mem_cons_of_mem _ mem_cons_self)
      have hne : key ≠ key' := by
        have hnodup := nodup_sortedSet (documented.map (·.stableKey))
        unfold candidateKeys at hd
        rw [hd, nodup_cons] at hnodup
        exact fun e => hnodup.1 (e ▸ mem_cons_self)
      constructor
      · intro hone
        rcases length_eq_one_iff.mp hone with ⟨k, hk⟩
        rw [hk, mem_singleton] at hkey hkey'
        exact absurd (hkey.trans hkey'.symm) hne
      · intro hlong
        omega

end Verdicts

section Judgements

variable {documented : List Node} {P : Str → Str → Prop}

theorem judged_diagnostic {f : Fact} (hf : f.isEdge = false) :
    Judged documented P [f] ↔ (candidateKeys documented).length ≠ 1 := by
  have hnone : ¬ ∃ f' ∈ [f], f'.isEdge = true := by
    rintro ⟨f', hf', hedge⟩
    rw [mem_singleton.mp hf', hf] at hedge
    cases hedge
  constructor
  · exact fun h hone => hnone (h.edge.mpr hone)
  · intro hone
    refine ⟨.inr ⟨f, rfl, hf⟩, ⟨fun h => absurd h hnone, fun h => absurd h hone⟩, ?_⟩
    intro f' hf'
    rw [mem_singleton.mp hf']
    cases f with
    | edge _ _ _ _ _ _ _ => cases hf
    | diagnostic _ _ _ _ _ _ _ => trivial

theorem judged_edges {fs : List Fact} (hne : fs ≠ []) (hall : ∀ f ∈ fs, f.isEdge = true) :
    Judged documented P fs ↔
      (candidateKeys documented).length = 1 ∧ ∀ f ∈ fs, f.PointsTo P := by
  have hsome : ∃ f ∈ fs, f.isEdge = true := by
    rcases exists_mem_of_ne_nil fs hne with ⟨f, hf⟩
    exact ⟨f, hf, hall f hf⟩
  constructor
  · exact fun h => ⟨h.edge.mp hsome, h.proper⟩
  · rintro ⟨hone, hproper⟩
    exact ⟨.inl ⟨hne, hall⟩, ⟨fun _ => hone, fun _ => hsome⟩, hproper⟩

theorem judged_edge {i : Input} {subject object : Node} {predicate : Str} :
    Judged documented P [addEdge i subject predicate object] ↔
      (candidateKeys documented).length = 1 ∧ P object.nodeKind object.stableKey := by
  rw [judged_edges (cons_ne_nil _ _) (by
    intro f hf
    rw [mem_singleton.mp hf]
    rfl), forall_mem_singleton]
  rfl

variable {nodes candidates : List Node}

/-- One candidate becomes an edge, none or several become a diagnostic. -/
theorem resolveCandidates_cases (hn : (nodes.map (·.stableKey)).Nodup)
    (hsub : ∀ n ∈ candidates, n ∈ nodes) (i : Input) (subject : Node) (predicate : Str) :
    (∃ target ∈ candidates, candidateKeys candidates = [target.stableKey] ∧
      resolveCandidates nodes i subject predicate candidates
        = [addEdge i subject predicate target]) ∨
    ((candidateKeys candidates).length ≠ 1 ∧ ∃ f, f.isEdge = false ∧
      resolveCandidates nodes i subject predicate candidates = [f]) := by
  unfold resolveCandidates
  rw [show sortedSet (candidates.map (·.stableKey)) = candidateKeys candidates from rfl]
  cases hkeys : candidateKeys candidates with
  | nil => exact .inr ⟨by decide, _, rfl, rfl⟩
  | cons key rest =>
    cases rest with
    | nil =>
      rcases (candidateKeys_singleton.mp hkeys).1 with ⟨target, hmem, rfl⟩
      have hfound : nodeByKey nodes target.stableKey = some target :=
        (nodeByKey_some hn).mpr ⟨hsub target hmem, rfl⟩
      refine .inl ⟨target, hmem, rfl, ?_⟩
      simp only [hfound]
    | cons key' rest =>
      refine .inr ⟨?_, _, rfl, rfl⟩
      simp only [length_cons]
      omega

theorem judged_resolveCandidates (hn : (nodes.map (·.stableKey)).Nodup)
    (hsub : ∀ n ∈ candidates, n ∈ nodes) (i : Input) (subject : Node) (predicate : Str) :
    Judged documented P (resolveCandidates nodes i subject predicate candidates) ↔
      ((candidateKeys candidates).length = 1 ↔ (candidateKeys documented).length = 1) ∧
        ∀ n ∈ candidates, candidateKeys candidates = [n.stableKey] → P n.nodeKind n.stableKey := by
  rcases resolveCandidates_cases hn hsub i subject predicate with
    ⟨target, hmem, hkeys, hfacts⟩ | ⟨hone, f, hf, hfacts⟩
  · rw [hfacts, judged_edge, hkeys]
    simp only [length_singleton, true_iff, List.cons.injEq, and_true]
    refine and_congr_right (fun _ => ⟨fun hP n hn' hkey => ?_, fun h => h target hmem rfl⟩)
    -- A stable key names one node.
    rw [← Rows.eq_of_key_eq hn (hsub target hmem) (hsub n hn') hkey]
    exact hP
  · rw [hfacts, judged_diagnostic hf, iff_false_left hone]
    refine ⟨fun h => ⟨h, fun n _ hkeys => absurd ?_ hone⟩, And.left⟩
    rw [hkeys]
    rfl

end Judgements

section References

variable {t : Tables} {i : Input} {text : Str}

variable {key : Str} {n : Node}

/-- A file that is no node has no bindings. -/
theorem bindingsByFile_absent (hs : Stored t) (h : nodeByKey t.nodes key = none) :
    bindingsByFile t key = [] := by
  have hsource : ∀ j source, sourceFile t.nodes j = some source → source.stableKey ≠ key := by
    intro j source hsource hkey
    have hmem : source ∈ t.nodes := by
      unfold sourceFile at hsource
      cases hfile : nodeOfKind t.nodes fileKind j.observation.subjectKey with
      | some subject =>
        simp only [hfile, Option.some.injEq] at hsource
        rw [← hsource]
        exact ((nodeOfKind_some hs.nodes).mp hfile).1
      | none =>
        simp only [hfile] at hsource
        exact ((nodeByKey_some hs.nodes).mp hsource).1
    rw [(nodeByKey_some hs.nodes).mpr ⟨hmem, hkey⟩] at h
    cases h
  unfold bindingsByFile
  rw [filterMap_eq_nil_iff]
  intro j _
  refine if_neg (fun hany => ?_)
  cases hsome : sourceFile t.nodes j with
  | none =>
    rw [hsome] at hany
    cases hany
  | some source =>
    rw [hsome, Option.any_some, decide_eq_true_eq] at hany
    exact hsource j source hsome hany

theorem referenceTarget_of_bound (hs : Stored t) (href : referent i = some text)
    (h : n ∈ throughBindings (exported t.nodes) t.nodes i.evidence.path text
      (bindingsByFile t (fileKey i.evidence.path))) : ReferenceTarget t i n.stableKey := by
  rcases mem_throughBindings.mp h with ⟨b, hb, hlocal, file, hfile, hn⟩
  rcases exported_subset hs.nodes hn with ⟨hmem, hkind⟩
  exact ⟨text, href, n, hmem, rfl, hkind, .inr (.inr ⟨b, hb, hlocal, file, hfile, hn⟩)⟩

/-- A key of the same file with a dot is borrowed, unless the bindings give the
    very symbol. -/
theorem dotted_referenceTarget (hs : Stored t) (href : referent i = some text)
    (hdirect : nodeOfKind t.nodes symbolKind text = none) (hdot : isTopLevel text = false)
    (h : ReferenceTarget t i key) :
    key ∈ candidateKeys (throughBindings (exported t.nodes) t.nodes i.evidence.path text
      (bindingsByFile t (fileKey i.evidence.path))) := by
  rcases h with ⟨text', href', target, hmem, hkey, hkind, hwhere⟩
  have htext : text' = text := Option.some.inj (href'.symm.trans href)
  subst htext
  rcases hwhere with hfull | ⟨_, htop⟩ | ⟨b, hb, hlocal, file, hfile, hn⟩
  · rw [(nodeOfKind_some hs.nodes).mpr ⟨hmem, hkey.trans hfull, hkind⟩] at hdirect
    cases hdirect
  · rw [htop] at hdot
    cases hdot
  · exact mem_candidateKeys.mpr ⟨target, mem_throughBindings.mpr ⟨b, hb, hlocal, file, hfile, hn⟩,
      hkey⟩

variable [Interpreter]

/-- What a reference finds, if neither its text nor its file has a symbol of the
    name. -/
theorem mem_referenceCandidates (hs : Stored t)
    (hdirect : nodeOfKind t.nodes symbolKind text = none)
    (hfile : nodeOfKind t.nodes symbolKind (symbolKey i.evidence.path text) = none) :
    n ∈ referenceCandidates t.nodes text i.evidence.path
        (bindingsByFile t (fileKey i.evidence.path)) ↔
      n ∈ throughBindings (exported t.nodes) t.nodes i.evidence.path text
          (bindingsByFile t (fileKey i.evidence.path)) ∨
        n ∈ strayReferences t.nodes i.evidence.path text
          (bindingsByFile t (fileKey i.evidence.path)) := by
  rw [← mem_boundCandidates]
  unfold referenceCandidates
  simp only [hdirect, hfile]
  cases hsource : nodeByKey t.nodes (fileKey i.evidence.path) with
  | none =>
    simp [bindingsByFile_absent hs hsource]
  | some source => exact Iff.rfl

theorem referenceCandidates_subset (hs : Stored t)
    (h : n ∈ referenceCandidates t.nodes text i.evidence.path
      (bindingsByFile t (fileKey i.evidence.path))) : n ∈ t.nodes := by
  cases hdirect : nodeOfKind t.nodes symbolKind text with
  | some direct =>
    unfold referenceCandidates at h
    simp only [hdirect, mem_singleton] at h
    rw [h]
    exact ((nodeOfKind_some hs.nodes).mp hdirect).1
  | none =>
    cases hfile : nodeOfKind t.nodes symbolKind (symbolKey i.evidence.path text) with
    | some sameFile =>
      unfold referenceCandidates at h
      simp only [hdirect, hfile, mem_singleton] at h
      rw [h]
      exact ((nodeOfKind_some hs.nodes).mp hfile).1
    | none =>
      rw [mem_referenceCandidates hs hdirect hfile] at h
      unfold strayReferences at h
      rw [mem_append, mem_throughBindings, mem_throughBindings, mem_flatMap] at h
      rcases h with ⟨b, _, _, file, _, hn⟩ | ⟨b, _, _, file, _, hn⟩ | ⟨b, _, hn⟩
      · exact (exported_subset hs.nodes hn).1
      · exact (boundSymbols_subset hs.nodes (mem_boundSymbols.mpr (.inr hn))).1
      · rcases mem_flatMap.mp hn with ⟨file, _, hn⟩
        exact (boundSymbols_subset hs.nodes hn).1

/-- The edge of a reference is right if its strays make no difference. -/
theorem judged_references (hs : Stored t) (href : referent i = some text) (subject : Node)
    (predicate : Str) :
    Judged (documentedReferences t.nodes text i.evidence.path
        (bindingsByFile t (fileKey i.evidence.path))) (fun _ key => ReferenceTarget t i key)
      (resolveCandidates t.nodes i subject predicate (referenceCandidates t.nodes text
        i.evidence.path (bindingsByFile t (fileKey i.evidence.path)))) ↔
      HarmlessReference t i text := by
  rw [judged_resolveCandidates hs.nodes (fun n hn => referenceCandidates_subset hs hn)]
  unfold HarmlessReference
  cases hdirect : nodeOfKind t.nodes symbolKind text with
  | some direct =>
    rcases (nodeOfKind_some hs.nodes).mp hdirect with ⟨hmem, hkey, hkind⟩
    unfold referenceCandidates documentedReferences
    simp only [hdirect, mem_singleton, forall_eq, true_and]
    refine iff_of_true (fun _ => ?_) (fun h => by cases h)
    exact ⟨text, href, direct, hmem, rfl, hkind, .inl hkey⟩
  | none =>
    simp only [forall_const]
    cases hfile : nodeOfKind t.nodes symbolKind (symbolKey i.evidence.path text) with
    | some sameFile =>
      rcases (nodeOfKind_some hs.nodes).mp hfile with ⟨hmem, hkey, hkind⟩
      have hcandidates : referenceCandidates t.nodes text i.evidence.path
          (bindingsByFile t (fileKey i.evidence.path)) = [sameFile] := by
        unfold referenceCandidates
        simp only [hdirect, hfile]
      rw [hcandidates]
      unfold documentedReferences topLevelSymbol
      simp only [hdirect, candidateKeys_one, mem_singleton, forall_eq, length_singleton,
        true_iff, forall_const]
      by_cases htop : isTopLevel text = true
      · simp only [htop, if_true, hfile, candidateKeys_one, length_singleton, true_and,
          Bool.true_eq_false, false_imp_iff, iff_true]
        exact ⟨text, href, sameFile, hmem, rfl, hkind, .inr (.inl ⟨hkey, htop⟩)⟩
      · rw [Bool.not_eq_true] at htop
        simp only [htop, Bool.false_eq_true, if_false, forall_const]
        constructor
        · rintro ⟨hone, htarget⟩
          rcases length_eq_one_iff.mp hone with ⟨key, hkeys⟩
          have hmemKey := dotted_referenceTarget hs href hdirect htop htarget
          rw [hkeys, mem_singleton] at hmemKey
          rw [hkeys, hmemKey]
        · intro hkeys
          rcases (candidateKeys_singleton.mp hkeys).1 with ⟨n, hn, hnkey⟩
          rw [hkeys, ← hnkey]
          exact ⟨rfl, referenceTarget_of_bound hs href hn⟩
    | none =>
      have hdocumented : documentedReferences t.nodes text i.evidence.path
          (bindingsByFile t (fileKey i.evidence.path))
          = throughBindings (exported t.nodes) t.nodes i.evidence.path text
            (bindingsByFile t (fileKey i.evidence.path)) := by
        unfold documentedReferences topLevelSymbol
        simp [hdirect, hfile]
      rw [hdocumented, keepsVerdict_iff (fun n => mem_referenceCandidates hs hdirect hfile)]
      refine ⟨And.left, fun hkeeps => ⟨hkeeps, fun n hn hkeys => ?_⟩⟩
      -- The one candidate is the documented one.
      have hone := (keepsVerdict_iff
        (fun n => mem_referenceCandidates hs hdirect hfile)).mpr hkeeps
      have hdocOne := hone.mp (by rw [hkeys]; rfl)
      rcases length_eq_one_iff.mp hdocOne with ⟨key, hkey⟩
      rcases (candidateKeys_singleton.mp hkey).1 with ⟨d, hd, _⟩
      have hdn : d.stableKey = n.stableKey := (candidateKeys_singleton.mp hkeys).2 d
        ((mem_referenceCandidates hs hdirect hfile).mpr (.inl hd))
      rw [← hdn]
      exact referenceTarget_of_bound hs href hd

end References

section Outcomes

variable {t : Tables} {P : Str → Str → Prop}

theorem judged_none {f : Fact} (hf : f.isEdge = false) : Judged [] P [f] := by
  refine (judged_diagnostic hf).mpr ?_
  rw [candidateKeys_nil]
  decide

theorem judged_definition (i : Input) :
    Judged (definitionParents t i) (fun _ _ => True) (resolveDefinition t i) ↔
      HarmlessDefinition t i := by
  unfold definitionParents resolveDefinition HarmlessDefinition
  cases hsymbol : nodeOfKind t.nodes symbolKind i.observation.subjectKey with
  | none => exact iff_of_true (judged_none rfl) (fun _ _ _ _ h => absurd h (by simp))
  | some symbol =>
    simp only [Option.some.injEq]
    cases hsplit : splitDouble symbol.stableKey with
    | none =>
      refine iff_of_true (judged_none rfl) (fun symbol' path qualified _ h hsplit' => ?_)
      rw [← h, hsplit] at hsplit'
      cases hsplit'
    | some split =>
      rcases split with ⟨path, qualified⟩
      have hall : (∀ symbol' path' qualified' parent, symbol = symbol' →
          splitDouble symbol'.stableKey = some (path', qualified') →
          nodeByKey t.nodes (parentKey path' qualified') = some parent →
          parent.nodeKind = parentKind qualified') ↔
          ∀ parent, nodeByKey t.nodes (parentKey path qualified) = some parent →
            parent.nodeKind = parentKind qualified := by
        constructor
        · exact fun h parent => h symbol path qualified parent rfl hsplit
        · intro h symbol' path' qualified' parent hs' hsplit'
          rw [← hs', hsplit, Option.some.injEq, Prod.mk.injEq] at hsplit'
          rw [← hsplit'.1, ← hsplit'.2]
          exact h parent
      rw [hall]
      simp only [nodeOfKind]
      cases hparent : nodeByKey t.nodes (parentKey path qualified) with
      | none => exact iff_of_true (judged_none rfl) (fun _ h => absurd h (by simp))
      | some parent =>
        simp only [Option.some.injEq, forall_eq']
        rw [judged_edges (cons_ne_nil _ _) (by
          intro f hf
          rcases mem_pair.mp hf with rfl | rfl <;> rfl)]
        have hpoints : ∀ f : Fact, f.PointsTo (fun _ _ => True) := fun f => by
          cases f <;> trivial
        by_cases hkind : parent.nodeKind = parentKind qualified
        · simp only [Option.filter_some, hkind, decide_true, if_true, Option.toList_some,
            candidateKeys_one, length_singleton, true_and, iff_true]
          exact fun f _ => hpoints f
        · simp [Option.filter_some, hkind, candidateKeys_nil]

theorem judged_declared (i : Input) (kind predicate : Str) (message : String) (hP : ∀ k o, P k o) :
    Judged (declaredTargets t kind i) P
      (match nodeOfKind t.nodes kind i.observation.subjectKey,
        nodeByKey t.nodes "repo:root".toList with
      | some target, some repository => [addEdge i repository predicate target]
      | _, _ => unresolved i message) := by
  unfold declaredTargets
  cases nodeOfKind t.nodes kind i.observation.subjectKey with
  | none => exact judged_none rfl
  | some target =>
    cases nodeByKey t.nodes "repo:root".toList with
    | none => exact judged_none rfl
    | some repository =>
      refine judged_edge.mpr ⟨?_, hP _ _⟩
      rw [candidateKeys_one]
      rfl

theorem judged_httpCall (i : Input) (hP : ∀ k o, P k o) :
    Judged (serviceTargets t i) P (resolveHttpCall t i) := by
  unfold serviceTargets resolveHttpCall
  cases (referent i).bind parseReferent with
  | none => exact judged_none rfl
  | some origin =>
    cases referenceSubject t i with
    | none => exact judged_none rfl
    | some subject =>
      simp only
      cases nodeOfKind t.nodes "service".toList ("svc:".toList ++ origin) with
      | none => exact judged_none rfl
      | some service =>
        refine judged_edge.mpr ⟨?_, hP _ _⟩
        rw [Option.toList_some, candidateKeys_one]
        rfl

variable [Interpreter]

theorem judged_referencesOf (hs : Stored t) (i : Input) (predicate : Str) :
    Judged (documentedOf t i) (fun _ key => ReferenceTarget t i key)
        (resolveReference t (bindingsByFile t) predicate i) ↔ HarmlessReferences t i := by
  unfold documentedOf resolveReference HarmlessReferences
  cases hsubject : referenceSubject t i with
  | none => exact iff_of_true (judged_none rfl) (fun _ _ h => absurd h (by simp))
  | some subject =>
    cases href : referent i with
    | none => exact iff_of_true (judged_none rfl) (fun _ _ _ h => absurd h (by simp))
    | some text =>
      refine (judged_references hs href subject predicate).trans ⟨fun h _ text' _ htext => ?_,
        fun h => h subject text rfl rfl⟩
      cases htext
      exact h

theorem judged_call (hs : Stored t) (i : Input) :
    Judged (if referenceInputKey i ∈ shadowedCalls t then [] else documentedOf t i)
        (fun _ key => ReferenceTarget t i key) (resolveCall t (bindingsByFile t) i) ↔
      (referenceInputKey i ∉ shadowedCalls t → HarmlessReferences t i) := by
  unfold resolveCall
  by_cases hshadowed : referenceInputKey i ∈ shadowedCalls t
  · rw [if_pos hshadowed, if_pos hshadowed]
    exact iff_of_true (judged_none rfl) (fun h => absurd hshadowed h)
  · rw [if_neg hshadowed, if_neg hshadowed, judged_referencesOf hs]
    simp [hshadowed]

theorem judged_route (hs : Stored t) (i : Input) :
    Judged (handlerTargets t i)
        (fun _ key => ∃ handler ∈ handlersOf t i.observation.subjectKey,
          ReferenceTarget t handler key)
        (resolveRoute t (bindingsByFile t) (handlersOf t i.observation.subjectKey) i) ↔
      HarmlessRoute t i := by
  unfold handlerTargets resolveRoute HarmlessRoute
  cases hroute : nodeOfKind t.nodes symbolKind i.observation.subjectKey with
  | none => exact iff_of_true (judged_none rfl) (fun _ _ _ h => absurd h (by simp))
  | some routeNode =>
    cases hhandlers : handlersOf t i.observation.subjectKey with
    | nil => exact iff_of_true (judged_none rfl) (fun _ _ _ _ h => absurd h (by simp))
    | cons handler rest =>
      cases rest with
      | cons other rest =>
        exact iff_of_true (judged_none rfl) (fun _ _ _ _ h => absurd h (by simp))
      | nil =>
        simp only [mem_singleton, exists_eq_left]
        cases href : referent handler with
        | none =>
          refine iff_of_true (judged_none rfl) (fun _ handler' _ _ h href' => ?_)
          rw [← (List.cons.inj h).1, href] at href'
          cases href'
        | some text =>
          have hharmless : (∀ symbol handler' text', some routeNode = some symbol →
              [handler] = [handler'] → referent handler' = some text' →
              HarmlessReference t handler' text') ↔ HarmlessReference t handler text := by
            constructor
            · exact fun h => h routeNode handler text rfl rfl href
            · intro h symbol handler' text' _ hhandler href'
              rw [← (List.cons.inj hhandler).1] at href' ⊢
              rw [← Option.some.inj (href.symm.trans href')]
              exact h
          rw [hharmless]
          exact judged_references hs href routeNode "routes_to".toList

omit [Interpreter] in
theorem endsWith_getLast {s suffix : Str} (h : endsWith s suffix = true) (hne : suffix ≠ []) :
    s.getLast? = suffix.getLast? := by
  unfold endsWith at h
  rcases isSuffixOf_iff_suffix.mp h with ⟨start, rfl⟩
  exact List.getLast?_append_of_ne_nil start hne

omit [Interpreter] in
theorem isTypeScript_not_python {path : Str} (h : isTypeScript path = true) :
    isPython path = false := by
  by_contra hpython
  rw [Bool.not_eq_false] at hpython
  have hpy := endsWith_getLast hpython (by decide)
  unfold isTypeScript at h
  rw [Bool.or_eq_true] at h
  rcases h with hts | htsx
  · exact absurd (hpy.symm.trans (endsWith_getLast hts (by decide))) (by decide)
  · exact absurd (hpy.symm.trans (endsWith_getLast htsx (by decide))) (by decide)

omit [Interpreter] in
theorem npmKey_not_pypi (package : Str) : startsWith (npmKey package) "dep:pypi:".toList = false :=
  rfl

theorem pypiKey_not_npm (package : Str) : startsWith (pypiKey package) "dep:npm:".toList = false :=
  rfl

/-- The key of a package in its own registry starts as that registry does. -/
theorem registryKey_proper (sourcePath package : Str) :
    (isPython sourcePath = true →
      startsWith (registryKey sourcePath package) "dep:npm:".toList = false) ∧
    (isTypeScript sourcePath = true →
      startsWith (registryKey sourcePath package) "dep:pypi:".toList = false) := by
  unfold registryKey
  by_cases hpython : isPython sourcePath = true
  · rw [if_pos hpython]
    refine ⟨fun _ => pypiKey_not_npm package, fun hts => ?_⟩
    rw [isTypeScript_not_python hts] at hpython
    cases hpython
  · rw [if_neg hpython]
    exact ⟨fun h => absurd h hpython, fun _ => npmKey_not_pypi package⟩

theorem registryKey_ne_other (sourcePath package : Str) :
    registryKey sourcePath package ≠ otherRegistryKey sourcePath package := by
  have hne : npmKey package ≠ pypiKey package := by
    intro h
    have hstart : startsWith (npmKey package) "dep:npm:".toList = true :=
      isPrefixOf_iff_prefix.mpr (prefix_append _ package)
    rw [h, pypiKey_not_npm] at hstart
    cases hstart
  unfold registryKey otherRegistryKey
  by_cases hpython : isPython sourcePath = true
  · rw [if_pos hpython, if_pos hpython]
    exact hne.symm
  · rw [if_neg hpython, if_neg hpython]
    exact hne

variable {i : Input} {specifier : Str} {bindings : List Binding}

/-- An import that is not relative and names no file is judged by its package. -/
theorem judged_package (hs : Stored t) (hbare : ¬ startsWith specifier ['.'] = true)
    (hfiles : fileNodes t.nodes specifier i.evidence.path bindings = []) (subject : Node)
    (predicate : Str) :
    Judged (documentedImports t.nodes specifier i.evidence.path bindings)
        (ProperTarget t .imports i)
        (resolveCandidates t.nodes i subject predicate
          (importCandidates t.nodes specifier i.evidence.path bindings)) ↔
      ∀ n ∈ t.nodes, n.nodeKind = dependencyKind →
        n.stableKey ≠ otherRegistryKey i.evidence.path (packageRoot specifier i.evidence.path) := by
  have hown : ∀ n, n ∈ documentedImports t.nodes specifier i.evidence.path bindings ↔
      n ∈ t.nodes ∧ n.nodeKind = dependencyKind ∧
        n.stableKey = registryKey i.evidence.path (packageRoot specifier i.evidence.path) := by
    intro n
    unfold documentedImports
    rw [namedFiles_bare hbare]
    simp [hfiles, if_neg hbare]
  have hboth : ∀ n, n ∈ importCandidates t.nodes specifier i.evidence.path bindings ↔
      n ∈ documentedImports t.nodes specifier i.evidence.path bindings ∨
        n ∈ t.nodes.filter (fun n => n.nodeKind = dependencyKind ∧
          n.stableKey = otherRegistryKey i.evidence.path
            (packageRoot specifier i.evidence.path)) := by
    intro n
    rw [hown]
    unfold importCandidates registryKey otherRegistryKey
    simp only [hfiles, mem_filter, decide_eq_true_eq]
    by_cases hpython : isPython i.evidence.path = true
    · simp only [hpython, if_true]
      tauto
    · simp only [hpython]
      tauto
  rw [judged_resolveCandidates hs.nodes (fun n hn => importCandidates_subset hn),
    keepsVerdict_iff hboth]
  have hne := registryKey_ne_other i.evidence.path (packageRoot specifier i.evidence.path)
  constructor
  · rintro ⟨hkeeps, _⟩ n hn hkind hkey
    -- The package of the other registry is the only stray.
    have hstrays : candidateKeys (t.nodes.filter (fun n => n.nodeKind = dependencyKind ∧
        n.stableKey = otherRegistryKey i.evidence.path
          (packageRoot specifier i.evidence.path))) = [n.stableKey] := by
      rw [candidateKeys_singleton]
      refine ⟨⟨n, mem_filter.mpr ⟨hn, decide_eq_true ⟨hkind, hkey⟩⟩, rfl⟩, fun m hm => ?_⟩
      rw [mem_filter, decide_eq_true_eq] at hm
      rw [hm.2.2, hkey]
    unfold KeepsVerdict at hkeeps
    cases hd : candidateKeys (documentedImports t.nodes specifier i.evidence.path bindings) with
    | nil =>
      simp only [hd, hstrays, length_singleton, ne_eq, not_true_eq_false] at hkeeps
    | cons key rest =>
      rcases mem_candidateKeys.mp (hd ▸ mem_cons_self) with ⟨d, hdoc, rfl⟩
      have hdkey := ((hown d).mp hdoc).2.2
      cases rest with
      | nil =>
        simp only [hd] at hkeeps
        have hstray := hkeeps n (mem_filter.mpr ⟨hn, decide_eq_true ⟨hkind, hkey⟩⟩)
        exact hne (hdkey.symm.trans (hstray.symm.trans hkey))
      | cons key' rest =>
        -- One registry has no two nodes of a package.
        have hnodup := nodup_sortedSet
          ((documentedImports t.nodes specifier i.evidence.path bindings).map (·.stableKey))
        unfold candidateKeys at hd
        rw [hd, nodup_cons] at hnodup
        have hmem : key' ∈ candidateKeys
            (documentedImports t.nodes specifier i.evidence.path bindings) := by
          unfold candidateKeys
          rw [hd]
          exact mem_cons_of_mem _ mem_cons_self
        rcases mem_candidateKeys.mp hmem with ⟨d', hdoc', rfl⟩
        rw [((hown d').mp hdoc').2.2, ← hdkey] at hnodup
        exact hnodup.1 mem_cons_self
  · intro hnone
    have hstrays : t.nodes.filter (fun n => n.nodeKind = dependencyKind ∧
        n.stableKey = otherRegistryKey i.evidence.path
          (packageRoot specifier i.evidence.path)) = [] := by
      rw [filter_eq_nil_iff]
      intro n hn hother
      rw [decide_eq_true_eq] at hother
      exact hnone n hn hother.1 hother.2
    refine ⟨?_, fun n hn _ _ => ?_⟩
    · rw [← keepsVerdict_iff hboth]
      rw [hstrays] at hboth
      have hsame : candidateKeys (importCandidates t.nodes specifier i.evidence.path bindings)
          = candidateKeys (documentedImports t.nodes specifier i.evidence.path bindings) := by
        refine sortedSet_eq_of_mem (fun key => ?_)
        simp [hboth]
      rw [hsame]
    · rcases (hboth n).mp hn with hdoc | hstray
      · rw [((hown n).mp hdoc).2.2]
        exact registryKey_proper _ _
      · rw [hstrays] at hstray
        cases hstray

/-- A relative import is judged by the files that it names. -/
theorem judged_relative (hs : Stored t) (hrelative : startsWith specifier ['.'] = true)
    (subject : Node) (predicate : Str) :
    Judged (documentedImports t.nodes specifier i.evidence.path bindings)
        (ProperTarget t .imports i)
        (resolveCandidates t.nodes i subject predicate
          (importCandidates t.nodes specifier i.evidence.path bindings)) ↔
      KeepsVerdict (namedFiles t.nodes specifier i.evidence.path bindings)
        (strayImports t.nodes specifier i.evidence.path bindings) := by
  have hdocumented : documentedImports t.nodes specifier i.evidence.path bindings =
      namedFiles t.nodes specifier i.evidence.path bindings := by
    unfold documentedImports
    split
    · rename_i hnone
      rw [if_pos hrelative, hnone]
    · rfl
  have hall : ∀ n, n ∈ importCandidates t.nodes specifier i.evidence.path bindings ↔
      n ∈ namedFiles t.nodes specifier i.evidence.path bindings ∨
        n ∈ strayImports t.nodes specifier i.evidence.path bindings := by
    intro n
    unfold importCandidates strayImports
    cases hfiles : fileNodes t.nodes specifier i.evidence.path bindings with
    | nil =>
      have hnone : namedFiles t.nodes specifier i.evidence.path bindings = [] := by
        unfold namedFiles
        rw [hfiles]
        rfl
      rw [hnone, or_iff_right not_mem_nil]
      simp only [mem_filter, decide_eq_true_eq]
      unfold registryKey otherRegistryKey
      by_cases hpython : isPython i.evidence.path = true
      · simp only [hpython, if_true]
        tauto
      · simp only [hpython]
        tauto
    | cons file files =>
      dsimp only
      rw [← hfiles]
      exact mem_fileNodes
  rw [judged_resolveCandidates hs.nodes (fun n hn => importCandidates_subset hn), hdocumented,
    keepsVerdict_iff hall]
  refine ⟨And.left, fun hkeeps => ⟨hkeeps, fun n hn hkeys hdependency => ?_⟩⟩
  -- The one candidate is a file that is named.
  have hone := ((keepsVerdict_iff hall).mpr hkeeps).mp (by rw [hkeys]; rfl)
  rcases length_eq_one_iff.mp hone with ⟨key, hkey⟩
  rcases (candidateKeys_singleton.mp hkey).1 with ⟨d, hd, -⟩
  have hfile := fileNodes_subset (mem_fileNodes.mpr (.inl hd))
  have hsame : d = n := Rows.eq_of_key_eq hs.nodes hfile.1 (importCandidates_subset hn)
    ((candidateKeys_singleton.mp hkeys).2 d ((hall d).mpr (.inl hd)))
  rw [← hsame, hfile.2] at hdependency
  exact absurd hdependency (by decide)

theorem judged_import (hs : Stored t) (i : Input) :
    Judged (importTargets t i) (ProperTarget t .imports i)
      (resolveImport t (bindingsByFile t) i) ↔ HarmlessImport t i := by
  unfold importTargets resolveImport HarmlessImport
  cases hsubject : sourceFile t.nodes i with
  | none => exact iff_of_true (judged_none rfl) (fun _ _ h => absurd h (by simp))
  | some subject =>
    cases href : referent i with
    | none => exact iff_of_true (judged_none rfl) (fun _ _ _ h => absurd h (by simp))
    | some specifier =>
      simp only [Option.some.injEq]
      have hone : ∀ P : Node → Str → Prop,
          (∀ subject' specifier', subject = subject' → specifier = specifier' →
            P subject' specifier') ↔ P subject specifier := by
        refine fun P => ⟨fun h => h subject specifier rfl rfl, ?_⟩
        rintro h _ _ rfl rfl
        exact h
      rw [hone]
      by_cases hrelative : startsWith specifier ['.'] = true
      · rw [if_pos hrelative]
        exact judged_relative hs hrelative subject "imports".toList
      rw [if_neg hrelative]
      cases hfiles : fileNodes t.nodes specifier i.evidence.path
          (bindingsByFile t subject.stableKey) with
      -- no file is named: the specifier is judged as one of a package
      | nil =>
        rw [judged_package hs hrelative hfiles subject "imports".toList]
        exact ⟨fun h _ => h, fun h => h rfl⟩
      | cons file files =>
        -- files are named: the candidates are the documented ones, and none is a dependency
        have hcandidates : importCandidates t.nodes specifier i.evidence.path
            (bindingsByFile t subject.stableKey) = documentedImports t.nodes specifier
              i.evidence.path (bindingsByFile t subject.stableKey) := by
          unfold importCandidates documentedImports
          rw [namedFiles_bare hrelative]
          simp only [hfiles]
        have hkind : ∀ n ∈ documentedImports t.nodes specifier i.evidence.path
            (bindingsByFile t subject.stableKey), n.nodeKind = fileKind := by
          unfold documentedImports
          rw [namedFiles_bare hrelative]
          simp only [hfiles]
          exact fun n hn => (fileNodes_subset (hfiles ▸ hn)).2
        refine iff_of_true ?_ (fun hnone => absurd hnone (cons_ne_nil _ _))
        rw [judged_resolveCandidates hs.nodes (fun n hn => importCandidates_subset hn),
          hcandidates]
        refine ⟨Iff.rfl, fun n hn _ hdependency => ?_⟩
        rw [hkind n hn] at hdependency
        exact absurd hdependency (by decide)

/-- The outcome of an input is right if its strays make no difference. -/
theorem soundAt_iff (hs : Stored t) (k : InputKind) (i : Input) :
    SoundAt t k i (factsOf t k i) ↔ Harmless t k i := by
  have htrue : ∀ _ _ : Str, True := fun _ _ => trivial
  cases k with
  | definition => exact judged_definition i
  | imports => exact judged_import hs i
  | call => exact judged_call hs i
  | implements => exact judged_referencesOf hs i "implements".toList
  | dependency => exact iff_of_true (judged_declared i _ _ _ htrue) trivial
  | injects => exact judged_referencesOf hs i "injects".toList
  | httpCall => exact iff_of_true (judged_httpCall i htrue) trivial
  | iacResource => exact iff_of_true (judged_declared i _ _ _ htrue) trivial
  | route => exact judged_route hs i

end Outcomes

/-- An edge without one documented candidate. -/
theorem not_sound [Interpreter] {t : Tables} {k : InputKind} {i : Input}
    (hi : i ∈ inputsOf t k.text) (hedge : (factsOf t k i).any Fact.isEdge = true)
    (hkeys : (candidateKeys (candidatesOf t k i)).length ≠ 1) : ¬ Sound t := by
  intro h
  have hkind : i.observation.observedKind = k.text.toList := by
    unfold inputsOf at hi
    rw [mem_filter, decide_eq_true_eq] at hi
    exact hi.2
  have hjudged := h.outcomes (i, factsOf t k i) (mem_resolve.mpr ⟨k, hi, rfl⟩) k hkind
  rw [any_eq_true] at hedge
  exact hkeys (hjudged.edge.mp hedge)

section Samples

local instance soundnessInterpreter : Interpreter := cpython

/-- A Python file with an observation in its first line, and bindings in the next. -/
def pythonFile (nodes : List Node) (kind text : Str) (bindings : List Str) : Tables :=
  let observation (id : Nat) (kind text : Str) : Observation :=
    { id := id, observationId := Nat.toDigits 10 id, observedKind := kind,
      subjectKey := fileKey "a.py".toList, referentText := some text, ordinal := 0 }
  let observations := observation 1 kind text ::
    bindings.map (observation 2 "import_binding".toList)
  { nodes := { id := 1, nodeKind := fileKind, stableKey := fileKey "a.py".toList, name := none,
               defaultExport := false } :: nodes
    observations := observations
    evidence := observations.map (fun o =>
      { parent := .observation o.id, path := "a.py".toList, startLine := o.id, endLine := o.id,
        logicalLineCount := 9, granularity := .span, extractor := "python".toList,
        extractorVersion := "1".toList }) }

/-- `import requests`, where only a `package.json` has a package of that name. -/
def otherRegistry : Tables :=
  pythonFile
    [{ id := 2, nodeKind := dependencyKind, stableKey := "dep:npm:requests".toList,
       name := some "requests".toList, defaultExport := false }]
    "import".toList "requests".toList []

/-- `run()` and `from b import run`, where `b.py` has only a method `C.run`. -/
def nestedMethod : Tables :=
  pythonFile
    [{ id := 2, nodeKind := fileKind, stableKey := fileKey "b.py".toList, name := none,
       defaultExport := false },
     { id := 3, nodeKind := symbolKind, stableKey := "b.py::C.run".toList,
       name := some "run".toList, defaultExport := false }]
    "call".toList "run".toList ["b|run|run".toList]

/-- `run()` and `from ..x import run`, in the root. -/
def pastTheRoot : Tables :=
  pythonFile
    [{ id := 2, nodeKind := fileKind, stableKey := fileKey "x.py".toList, name := none,
       defaultExport := false },
     { id := 3, nodeKind := symbolKind, stableKey := "x.py::run".toList,
       name := some "run".toList, defaultExport := false }]
    "call".toList "run".toList ["..x|run|run".toList]

theorem stored_sample {t : Tables} (hn : (t.nodes.map (·.stableKey)).Nodup)
    (ho : (t.observations.map (·.observationId)).Nodup)
    (he : (t.evidence.map (·.startLine)).Nodup) : Stored t := by
  refine ⟨hn, ho, ?_⟩
  exact List.Nodup.of_map (fun row => row.2.2.1) (by rwa [map_map])

end Samples

end Resolution

end Partha
