import Partha.Library.Rows
import Partha.Resolution.Resolver

/-!
# Resolution and the Order of Rows

The resolver sees the rows of a snapshot in the order in which the database
returns them, and what it adds does not depend on that order.

Nothing but the constraints of the tables is needed. A stable key names one
node, so a lookup is the same in every order. An observation has one id, so the
inputs come in one order. Two evidence rows of one parent differ in a column of
the evidence key, so the first of them is the same row. The scans over all nodes
give their candidates in another order, and of these the resolver only asks
which stable keys there are.

## Main definitions

* `Stored`: The unique constraints of the tables.
* `Reordered`: The same rows in another order.

## Theorems

* `inputs_reordered`: The inputs are the same.
* `importCandidates_perm`, `referenceCandidates_perm`: The candidates are the
  same up to their order.
* `containingSymbol_reordered`: The symbol around an input is the same.
* `resolve_reordered`: So is what every input becomes.
* `resolve_reordered_import`: An import whose nodes and evidence come back the
  other way round.
-/

namespace Partha

namespace Resolution

open Canonical Extraction SortKeys List

/-- The columns of `uq_ri_evidence_node_fact` and of the two indexes like it. -/
def evidenceFact (e : Evidence) : Parent × Str × Nat × Nat × Granularity × Str × Str :=
  (e.parent, e.path, e.startLine, e.endLine, e.granularity, e.extractor, e.extractorVersion)

/-- The unique constraints of the tables that the resolver reads. -/
structure Stored (t : Tables) : Prop where
  nodes : (t.nodes.map (·.stableKey)).Nodup
  observations : (t.observations.map (·.observationId)).Nodup
  evidence : (t.evidence.map evidenceFact).Nodup

/-- The same rows in another order. -/
structure Reordered (t t' : Tables) : Prop where
  nodes : t.nodes.Perm t'.nodes
  observations : t.observations.Perm t'.observations
  evidence : t.evidence.Perm t'.evidence

theorem granularity_text_injective : Function.Injective Granularity.text := by
  intro g g' h
  cases g with
  | span =>
    cases g' with
    | span => rfl
    | file => exact absurd h (by decide)
  | file =>
    cases g' with
    | span => exact absurd h (by decide)
    | file => rfl

/-- The evidence key has every column of the index but the parent. -/
theorem evidenceKey_injective {e e' : Evidence} (hparent : e.parent = e'.parent)
    (hkey : evidenceKey e = evidenceKey e') : evidenceFact e = evidenceFact e' := by
  simp only [evidenceKey, List.cons.injEq, and_true] at hkey
  obtain ⟨hpath, hstart, hend, hgran, hext, hver⟩ := hkey
  simp only [evidenceFact, Prod.mk.injEq]
  exact ⟨hparent, codePoints_injective hpath, hstart, hend,
    granularity_text_injective (codePoints_injective hgran), codePoints_injective hext,
    codePoints_injective hver⟩

section Inputs

variable {t t' : Tables}

/-- The first evidence of an observation does not depend on the order of the
    evidence rows. -/
theorem evidence_reordered (hs : Stored t) (h : Reordered t t') (parent : Parent) :
    sortBy evidenceKey (t.evidence.filter (fun e => e.parent = parent))
      = sortBy evidenceKey (t'.evidence.filter (fun e => e.parent = parent)) := by
  refine sortBy_eq_of_perm (h.evidence.filter _) (fun e he e' he' hkey => ?_)
  simp only [mem_filter, decide_eq_true_eq] at he he'
  have hfact : evidenceFact e = evidenceFact e' :=
    evidenceKey_injective (he.2.trans he'.2.symm) hkey
  exact Rows.eq_of_key_eq hs.evidence he.1 he'.1 hfact

theorem inputs_reordered (hs : Stored t) (h : Reordered t t') : inputs t = inputs t' := by
  have hobservations : sortBy (fun o => codePoints o.observationId) t.observations
      = sortBy (fun o => codePoints o.observationId) t'.observations := by
    refine sortBy_eq_of_perm h.observations (fun o ho o' ho' hkey => ?_)
    exact Rows.eq_of_key_eq hs.observations ho ho' (codePoints_injective hkey)
  unfold inputs
  rw [hobservations]
  refine filterMap_congr (fun o _ => ?_)
  rw [evidence_reordered hs h]

theorem inputsOf_reordered (hs : Stored t) (h : Reordered t t') (kind : String) :
    inputsOf t kind = inputsOf t' kind := by
  unfold inputsOf
  rw [inputs_reordered hs h]

end Inputs

section Nodes

variable {nodes nodes' : List Node}

theorem nodeByKey_perm (hn : (nodes.map (·.stableKey)).Nodup) (hp : nodes.Perm nodes')
    (key : Str) : nodeByKey nodes key = nodeByKey nodes' key :=
  Rows.find?_perm hn hp key

theorem nodeOfKind_perm (hn : (nodes.map (·.stableKey)).Nodup) (hp : nodes.Perm nodes')
    (kind key : Str) : nodeOfKind nodes kind key = nodeOfKind nodes' kind key := by
  unfold nodeOfKind
  rw [nodeByKey_perm hn hp]

theorem sourceFile_perm (hn : (nodes.map (·.stableKey)).Nodup) (hp : nodes.Perm nodes')
    (i : Input) : sourceFile nodes i = sourceFile nodes' i := by
  unfold sourceFile
  rw [nodeOfKind_perm hn hp, nodeByKey_perm hn hp]

/-- The source roots of a file list are asked for by membership. -/
theorem pythonSourceRoots_perm {paths paths' : List Str} (hp : paths.Perm paths') :
    (pythonSourceRoots paths).Perm (pythonSourceRoots paths') := by
  have hdirs : ((paths.filter (fun path => basename path = "__init__.py".toList)).map dirname).Perm
      ((paths'.filter (fun path => basename path = "__init__.py".toList)).map dirname) :=
    (hp.filter _).map _
  unfold pythonSourceRoots
  refine List.Perm.cons _ ?_
  simp only [elem_eq_contains, hdirs.contains_eq]
  exact (hdirs.map _).filter _

theorem pythonAbsoluteFileCandidates_perm {roots roots' : List Str} (hp : roots.Perm roots')
    (specifier : Str) : (pythonAbsoluteFileCandidates roots specifier).Perm
      (pythonAbsoluteFileCandidates roots' specifier) :=
  hp.flatMap_right _

theorem fileCandidates_perm (hp : nodes.Perm nodes') (specifier sourcePath : Str)
    (bindings : List Binding) : (fileCandidates nodes specifier sourcePath bindings).Perm
      (fileCandidates nodes' specifier sourcePath bindings) := by
  have hroots : (pythonSourceRoots (filePaths nodes)).Perm (pythonSourceRoots (filePaths nodes')) :=
    pythonSourceRoots_perm ((hp.filter _).map _)
  unfold fileCandidates
  by_cases hdot : startsWith specifier ['.'] = true
  · rw [if_pos hdot, if_pos hdot]
  · rw [if_neg hdot, if_neg hdot]
    by_cases hpython : (isPython sourcePath && isDottedName specifier) = true
    · rw [if_pos hpython, if_pos hpython]
      refine (pythonAbsoluteFileCandidates_perm hroots specifier).append ?_
      refine List.Perm.flatMap_left _ (fun b _ => ?_)
      exact pythonAbsoluteFileCandidates_perm hroots b.specifier
    · rw [if_neg hpython, if_neg hpython]

theorem fileNodes_perm (hp : nodes.Perm nodes') (specifier sourcePath : Str)
    (bindings : List Binding) : (fileNodes nodes specifier sourcePath bindings).Perm
      (fileNodes nodes' specifier sourcePath bindings) := by
  have hkeys := (fileCandidates_perm hp specifier sourcePath bindings).map fileKey
  unfold fileNodes
  simp only [hkeys.contains_eq]
  exact hp.filter _

theorem boundSymbols_perm (hn : (nodes.map (·.stableKey)).Nodup) (hp : nodes.Perm nodes')
    (imported path : Str) :
    (boundSymbols nodes imported path).Perm (boundSymbols nodes' imported path) := by
  unfold boundSymbols
  by_cases hdefault : imported = "default".toList
  · rw [if_pos hdefault, if_pos hdefault]
    exact hp.filter _
  · rw [if_neg hdefault, if_neg hdefault, nodeOfKind_perm hn hp]
    cases nodeOfKind nodes' symbolKind (symbolKey path imported) with
    | some target => exact List.Perm.refl _
    | none => exact hp.filter _

variable [Interpreter]

theorem importCandidates_perm (hp : nodes.Perm nodes') (specifier sourcePath : Str)
    (bindings : List Binding) : (importCandidates nodes specifier sourcePath bindings).Perm
      (importCandidates nodes' specifier sourcePath bindings) := by
  have hfiles := fileNodes_perm hp specifier sourcePath bindings
  unfold importCandidates
  cases hf : fileNodes nodes specifier sourcePath bindings with
  | nil =>
    rw [hf] at hfiles
    rw [hfiles.symm.eq_nil]
    exact hp.filter _
  | cons file files =>
    cases hf' : fileNodes nodes' specifier sourcePath bindings with
    | nil =>
      rw [hf, hf'] at hfiles
      exact absurd hfiles.eq_nil (cons_ne_nil file files)
    | cons file' files' =>
      rw [hf, hf'] at hfiles
      exact hfiles

theorem boundCandidates_perm (hn : (nodes.map (·.stableKey)).Nodup) (hp : nodes.Perm nodes')
    (sourcePath : Str) (b : Binding) :
    (boundCandidates nodes sourcePath b).Perm (boundCandidates nodes' sourcePath b) := by
  have hfiles := (importCandidates_perm hp b.specifier sourcePath []).filter
    (fun n => n.nodeKind = fileKind)
  unfold boundCandidates
  exact (hfiles.flatMap_right _).trans
    (List.Perm.flatMap_left _ (fun n _ => boundSymbols_perm hn hp _ _))

theorem referenceCandidates_perm (hn : (nodes.map (·.stableKey)).Nodup) (hp : nodes.Perm nodes')
    (referent sourcePath : Str) (bindings : List Binding) :
    (referenceCandidates nodes referent sourcePath bindings).Perm
      (referenceCandidates nodes' referent sourcePath bindings) := by
  unfold referenceCandidates
  rw [nodeOfKind_perm hn hp, nodeOfKind_perm hn hp, nodeByKey_perm hn hp]
  cases nodeOfKind nodes' symbolKind referent with
  | some direct => exact List.Perm.refl _
  | none =>
    cases nodeOfKind nodes' symbolKind (symbolKey sourcePath referent) with
    | some sameFile => exact List.Perm.refl _
    | none =>
      cases nodeByKey nodes' (fileKey sourcePath) with
      | none => exact List.Perm.refl _
      | some source => exact List.Perm.flatMap_left _ (fun b _ => boundCandidates_perm hn hp _ b)

omit [Interpreter] in
/-- Of the candidates only the stable keys are asked for. -/
theorem resolveCandidates_perm (hn : (nodes.map (·.stableKey)).Nodup) (hp : nodes.Perm nodes')
    {candidates candidates' : List Node} (hc : candidates.Perm candidates') (i : Input)
    (subject : Node) (predicate : Str) : resolveCandidates nodes i subject predicate candidates
      = resolveCandidates nodes' i subject predicate candidates' := by
  have hkeys : sortedSet (candidates.map (·.stableKey)) =
      sortedSet (candidates'.map (·.stableKey)) :=
    sortedSet_eq_of_mem (fun s => (hc.map _).mem_iff)
  unfold resolveCandidates
  rw [hkeys]
  simp only [nodeByKey_perm hn hp]

end Nodes

section Passes

variable {t t' : Tables}

/-- Evidence of one length around an input is told apart by the symbol. -/
theorem containingSymbol_reordered (hs : Stored t) (h : Reordered t t') (i : Input) :
    containingSymbol t i = containingSymbol t' i := by
  have hsurrounding : (surrounding t i).Perm (surrounding t' i) := by
    unfold surrounding
    refine ((h.nodes.filter _).flatMap_right _).trans ?_
    exact List.Perm.flatMap_left _ (fun n _ => (h.evidence.filter _).map _)
  have hnode : ∀ c ∈ surrounding t i, c.2 ∈ t.nodes := by
    intro c hc
    simp only [surrounding, mem_flatMap, mem_filter, mem_map] at hc
    obtain ⟨n, ⟨hn, -⟩, e, -, rfl⟩ := hc
    exact hn
  unfold containingSymbol
  rw [sortBy_eq_of_perm hsurrounding]
  intro c hc d hd hkey
  simp only [List.cons.injEq, and_true] at hkey
  have hkeys : c.2.stableKey = d.2.stableKey := codePoints_injective hkey.2
  exact Prod.ext hkey.1 (Rows.eq_of_key_eq hs.nodes (hnode c hc) (hnode d hd) hkeys)

theorem referenceSubject_reordered (hs : Stored t) (h : Reordered t t') (i : Input) :
    referenceSubject t i = referenceSubject t' i := by
  unfold referenceSubject
  rw [nodeOfKind_perm hs.nodes h.nodes, containingSymbol_reordered hs h,
    nodeByKey_perm hs.nodes h.nodes]

theorem bindingsByFile_reordered (hs : Stored t) (h : Reordered t t') :
    bindingsByFile t = bindingsByFile t' := by
  funext key
  unfold bindingsByFile
  rw [inputsOf_reordered hs h]
  refine filterMap_congr (fun i _ => ?_)
  rw [sourceFile_perm hs.nodes h.nodes]

theorem resolveDefinition_reordered (hs : Stored t) (h : Reordered t t') (i : Input) :
    resolveDefinition t i = resolveDefinition t' i := by
  unfold resolveDefinition
  rw [nodeOfKind_perm hs.nodes h.nodes]
  simp only [nodeByKey_perm hs.nodes h.nodes]

theorem resolveDependency_reordered (hs : Stored t) (h : Reordered t t') (i : Input) :
    resolveDependency t i = resolveDependency t' i := by
  unfold resolveDependency
  rw [nodeOfKind_perm hs.nodes h.nodes, nodeByKey_perm hs.nodes h.nodes]

theorem resolveIacResource_reordered (hs : Stored t) (h : Reordered t t') (i : Input) :
    resolveIacResource t i = resolveIacResource t' i := by
  unfold resolveIacResource
  rw [nodeOfKind_perm hs.nodes h.nodes, nodeByKey_perm hs.nodes h.nodes]

theorem resolveHttpCall_reordered (hs : Stored t) (h : Reordered t t') (i : Input) :
    resolveHttpCall t i = resolveHttpCall t' i := by
  unfold resolveHttpCall
  rw [referenceSubject_reordered hs h]
  simp only [nodeOfKind_perm hs.nodes h.nodes]

variable [Interpreter]

theorem resolveImport_reordered (hs : Stored t) (h : Reordered t t')
    (bindings : Str → List Binding) (i : Input) :
    resolveImport t bindings i = resolveImport t' bindings i := by
  unfold resolveImport
  rw [sourceFile_perm hs.nodes h.nodes]
  cases sourceFile t'.nodes i with
  | none => rfl
  | some subject =>
    cases referent i with
    | none => rfl
    | some specifier =>
      exact resolveCandidates_perm hs.nodes h.nodes (importCandidates_perm h.nodes _ _ _) _ _ _

theorem resolveReference_reordered (hs : Stored t) (h : Reordered t t')
    (bindings : Str → List Binding) (predicate : Str) (i : Input) :
    resolveReference t bindings predicate i = resolveReference t' bindings predicate i := by
  unfold resolveReference
  rw [referenceSubject_reordered hs h]
  cases referenceSubject t' i with
  | none => rfl
  | some subject =>
    cases referent i with
    | none => rfl
    | some text =>
      exact resolveCandidates_perm hs.nodes h.nodes
        (referenceCandidates_perm hs.nodes h.nodes _ _ _) _ _ _

theorem resolveCall_reordered (hs : Stored t) (h : Reordered t t')
    (bindings : Str → List Binding) (i : Input) :
    resolveCall t bindings i = resolveCall t' bindings i := by
  unfold resolveCall shadowedCalls
  rw [inputsOf_reordered hs h, resolveReference_reordered hs h]

theorem resolveRoute_reordered (hs : Stored t) (h : Reordered t t')
    (bindings : Str → List Binding) (handlers : List Input) (route : Input) :
    resolveRoute t bindings handlers route = resolveRoute t' bindings handlers route := by
  unfold resolveRoute
  rw [nodeOfKind_perm hs.nodes h.nodes]
  cases nodeOfKind t'.nodes symbolKind route.observation.subjectKey with
  | none => rfl
  | some routeNode =>
    match handlers with
    | [] => rfl
    | _ :: _ :: _ => rfl
    | [handler] =>
      cases hr : referent handler with
      | none => simp only [hr]
      | some text =>
        simp only [hr]
        exact resolveCandidates_perm hs.nodes h.nodes
          (referenceCandidates_perm hs.nodes h.nodes _ _ _) _ _ _

/-- A resolver pass over the same rows in another order: every input becomes the
    same facts, in the same order, and so the counts are the same. -/
theorem resolve_reordered (hs : Stored t) (h : Reordered t t') :
    resolve t = resolve t' ∧ facts t = facts t' ∧ resolutionResult t = resolutionResult t' := by
  have hresolve : resolve t = resolve t' := by
    unfold resolve handlersOf
    simp only [inputsOf_reordered hs h, bindingsByFile_reordered hs h,
      resolveDefinition_reordered hs h, resolveDependency_reordered hs h,
      resolveIacResource_reordered hs h, resolveHttpCall_reordered hs h,
      resolveImport_reordered hs h, resolveReference_reordered hs h, resolveCall_reordered hs h,
      resolveRoute_reordered hs h]
  have hfacts : facts t = facts t' := by
    unfold facts
    rw [hresolve]
  refine ⟨hresolve, hfacts, ?_⟩
  unfold resolutionResult
  rw [hfacts]

end Passes

section Samples

local instance orderInterpreter : Interpreter := cpython

/-- A module, the file that imports it, and two places where it does. -/
def importTables : Tables :=
  { nodes :=
      [{ id := 1, nodeKind := fileKind, stableKey := fileKey "a.py".toList, name := none,
         defaultExport := false },
       { id := 2, nodeKind := fileKind, stableKey := fileKey "b.py".toList, name := none,
         defaultExport := false }]
    observations :=
      [{ id := 1, observationId := "o1".toList, observedKind := "import".toList,
         subjectKey := fileKey "a.py".toList, referentText := some "b".toList, ordinal := 0 }]
    evidence :=
      [{ parent := .observation 1, path := "a.py".toList, startLine := 1, endLine := 1,
         logicalLineCount := 9, granularity := .span, extractor := "python".toList,
         extractorVersion := "1".toList },
       { parent := .observation 1, path := "a.py".toList, startLine := 5, endLine := 5,
         logicalLineCount := 9, granularity := .span, extractor := "python".toList,
         extractorVersion := "1".toList }] }

def importTablesReversed : Tables :=
  { nodes := importTables.nodes.reverse
    observations := importTables.observations.reverse
    evidence := importTables.evidence.reverse }

theorem resolve_reordered_import :
    resolve importTables = resolve importTablesReversed ∧
      facts importTables = facts importTablesReversed ∧
      resolutionResult importTables = resolutionResult importTablesReversed := by
  have hs : Stored importTables := by
    refine ⟨?_, ?_, ?_⟩
    · decide
    · decide
    · -- The two rows differ in their lines.
      have hlines : (importTables.evidence.map (·.startLine)).Nodup := by decide
      exact List.Nodup.of_map (fun row => row.2.2.1) (by rwa [map_map])
  have h : Reordered importTables importTablesReversed :=
    ⟨(reverse_perm _).symm, (reverse_perm _).symm, (reverse_perm _).symm⟩
  exact resolve_reordered hs h

example : resolutionResult importTables = (1, 0) := by decide +kernel

end Samples

end Resolution

end Partha
