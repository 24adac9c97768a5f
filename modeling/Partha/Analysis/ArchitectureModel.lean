import Partha.Analysis.Architecture
import Partha.Insights.ImportKeys

/-!
# The Architecture Model is Well Formed

What a reader of the model can rely on, and that no relationship is lost on the way to it.

The files of a module are those with its id, so two modules share none. The ids of nodes and
edges are told apart by their form: a module and a dependency have different prefixes, and
the id of an edge is the id of its relationship, or that with an index behind a colon that
the hash does not have. A relationship is drawn with its evidence, or all of its pairs are
the same module twice, or a diagnostic names it.

There is a model unless a diagnostic cannot be judged. `classify_unresolved` derives the key
of the package that an unresolved import names, and a specifier with a control character has
none. The error is not caught, and no model is returned at all.

## Main definitions

* `WellFormed`: The parts of a model agree.
* `Accounted`: A relationship is drawn, inside a module, or reported.

## Theorems

* `modulesFromFacts_grouped`: The modules of the facts, and that there are always some.
* `assemble_wellFormed`: What is assembled is well formed.
* `assemble_accounts`: It accounts for every relationship.
* `build_accounts`: When there is a model.
* `build_refused`: A specifier for which there is none.
-/

namespace Partha

namespace Architecture

open Canonical Extraction Facts
open Resolution (dirname)
open SortKeys List

section Modules

/-- What holds of the modules: an id belongs to one, and it says which files are in it. -/
structure Grouped [Interpreter] (facts : ArchitectureSnapshotFacts)
    (modules : List RepositoryModule) : Prop where
  nodup : (modules.map RepositoryModule.id).Nodup
  named : ∀ m ∈ modules, ∃ slug, m.id = modulePrefix ++ slug
  files : ∀ m ∈ modules, ∀ path ∈ m.files, moduleId facts path = m.id

variable {a : Str} {facts : ArchitectureSnapshotFacts} {title : Str → Str} {m : RepositoryModule}
  {modules : List RepositoryModule}

/-- A fold that only ever keeps the best so far or takes the next one ends with one of them. -/
theorem foldl_mem {g : Option Str → Str → Option Str}
    (hg : ∀ best b a, g best b = some a → a = b ∨ best = some a) (l : List Str) (best : Option Str)
    (h : l.foldl g best = some a) : a ∈ l ∨ best = some a := by
  induction l generalizing best with
  | nil => exact .inr h
  | cons b l ih =>
    rw [foldl_cons] at h
    rcases ih _ h with hl | hbest
    · exact .inl (mem_cons_of_mem _ hl)
    · rcases hg best b a hbest with rfl | hbest
      · exact .inl mem_cons_self
      · exact .inr hbest

theorem firstMax_mem {f : Str → Nat} {l : List Str} (h : firstMax f l = some a) : a ∈ l := by
  have hmem : a ∈ l ∨ none = some a := by
    refine foldl_mem ?_ l none h
    intro best b a hbest
    cases best with
    | none => exact .inl (Option.some.inj hbest).symm
    | some c =>
      by_cases hlt : f c < f b
      · simp only [hlt, if_true] at hbest
        exact .inl (Option.some.inj hbest).symm
      · simp only [hlt, if_false] at hbest
        exact .inr hbest
  exact hmem.resolve_right (Option.some_ne_none a).symm

/-- A file is classified in a role that exists. -/
theorem fileRole_mem (facts : SealedFacts) {path role : Str}
    (h : fileRole facts.toArchitectureSnapshotFacts path = some role) : role ∈ sourceRoles := by
  rw [fileRole] at h
  rcases lookup_eq_some_iff.mp h with ⟨_, _, hsplit, -⟩
  have hmem := mem_reverse.mp (hsplit ▸ mem_append_right _ mem_cons_self)
  rcases mem_filterMap.mp hmem with ⟨a, ha, hrole⟩
  by_cases hkind : a.subjectKind = "file".toList
  · rw [if_pos hkind] at hrole
    rcases Option.map_eq_some_iff.mp hrole with ⟨role', hclass, heq⟩
    rw [← (Prod.mk.inj heq).2]
    exact facts.file_roles a ha hkind role' hclass
  · rw [if_neg hkind] at hrole
    exact absurd hrole (Option.some_ne_none _).symm

theorem dominantRole_mem (facts : SealedFacts) (paths : List Str) :
    dominantRole facts.toArchitectureSnapshotFacts paths ∈ sourceRoles := by
  rw [dominantRole]
  split
  · rename_i role hmax
    rcases mem_filterMap.mp (mem_filter.mp (firstMax_mem hmax)).1 with ⟨path, _, hrole⟩
    exact fileRole_mem facts hrole
  · cases hrole : paths.head?.bind (fileRole facts.toArchitectureSnapshotFacts) with
    | none =>
      have hunknown : unknownRole ∈ sourceRoles := by decide
      exact hunknown
    | some role =>
      rcases Option.bind_eq_some_iff.mp hrole with ⟨path, _, hrole⟩
      exact fileRole_mem facts hrole

theorem moduleOf_eq_ok {group : Str × List Str} (h : moduleOf facts title group = .ok m) :
    m.id = group.1 ∧ ∀ path, path ∈ m.files ↔ path ∈ group.2 := by
  rw [moduleOf] at h
  split at h
  · cases h
  · cases h
    exact ⟨rfl, fun path => mem_sortBy⟩

theorem moduleOf_ok (facts : SealedFacts) (title : Str → Str) (group : Str × List Str) :
    ∃ m, moduleOf facts.toArchitectureSnapshotFacts title group = .ok m := by
  have hrole : sourceRoles.elem (dominantRole facts.toArchitectureSnapshotFacts group.2) = true :=
    elem_iff.mpr (dominantRole_mem facts group.2)
  simp only [moduleOf, hrole, Bool.not_true, Bool.false_eq_true, if_false]
  exact ⟨_, rfl⟩

theorem map_id_disambiguateNames (modules : List RepositoryModule) :
    (disambiguateNames modules).map RepositoryModule.id = modules.map RepositoryModule.id := by
  rw [disambiguateNames, map_map]
  exact map_congr_left (fun m _ => rfl)

/-- A name is all that changes. -/
theorem mem_disambiguateNames (h : m ∈ disambiguateNames modules) :
    ∃ n ∈ modules, m.id = n.id ∧ m.files = n.files := by
  rcases mem_map.mp h with ⟨n, hn, rfl⟩
  exact ⟨n, hn, rfl, rfl⟩

variable [Interpreter]

theorem emptyModule_grouped (facts : ArchitectureSnapshotFacts) :
    Grouped facts [emptyModule] where
  nodup := nodup_singleton _
  named := by
    intro m hm
    rw [mem_singleton.mp hm]
    exact ⟨"repository".toList, by decide⟩
  files := by
    intro m hm path hpath
    rw [mem_singleton.mp hm] at hpath
    cases hpath

/-- The modules of the groups of files. -/
theorem grouped_of_collect {files : List Str} (h : Checked.collect (moduleOf facts title)
      (Grouping.groups (fun path => some (moduleId facts path)) files) = .ok modules) :
    Grouped facts modules := by
  have hall := Checked.collect_eq_ok.mp h
  have hids : modules.map RepositoryModule.id =
      (Grouping.groups (fun path => some (moduleId facts path)) files).map Prod.fst := by
    have hmap : List.Forall₂ (fun group (m : RepositoryModule) => group.1 = m.id)
        (Grouping.groups (fun path => some (moduleId facts path)) files) modules :=
      hall.imp fun group m hm => (moduleOf_eq_ok hm).1.symm
    exact (List.forall₂_map_left_iff.mpr (List.forall₂_map_right_iff.mpr hmap) |>
      List.forall₂_eq_eq_eq.le _ _).symm
  have hfiles : ∀ m ∈ modules, ∀ path ∈ m.files, moduleId facts path = m.id := by
    intro m hm path hpath
    rcases Checked.forall₂_mem_right hall hm with ⟨group, hgroup, hok⟩
    rcases moduleOf_eq_ok hok with ⟨hid, hin⟩
    have hof := (Grouping.mem_groups.mp hgroup).2
    have hkey : path ∈ Grouping.group (fun path => some (moduleId facts path)) files group.1 :=
      hof ▸ (hin path).mp hpath
    have hpass := of_decide_eq_true (mem_filter.mp hkey).2
    rw [hid, Option.some.inj hpass]
  refine ⟨hids ▸ Grouping.nodup_groups _ _, fun m hm => ?_, hfiles⟩
  rcases Checked.forall₂_mem_right hall hm with ⟨group, hgroup, hok⟩
  rcases Grouping.mem_groups.mp hgroup with ⟨hne, hof⟩
  rcases exists_mem_of_ne_nil _ hne with ⟨path, hpath⟩
  have hin : path ∈ m.files := ((moduleOf_eq_ok hok).2 path).mpr hpath
  exact ⟨_, (hfiles m hm path hin).symm⟩

/-- Neither the order of the modules nor their names matter. -/
theorem Grouped.rearranged (h : Grouped facts modules) :
    Grouped facts (disambiguateNames (sortBy (fun m => codePoints m.id) modules)) := by
  have hperm := perm_sortBy (fun m : RepositoryModule => codePoints m.id) modules
  constructor
  · rw [map_id_disambiguateNames]
    exact (hperm.map _).nodup_iff.mpr h.nodup
  · intro m hm
    rcases mem_disambiguateNames hm with ⟨n, hn, hid, -⟩
    rw [hid]
    exact h.named n (mem_sortBy.mp hn)
  · intro m hm path hpath
    rcases mem_disambiguateNames hm with ⟨n, hn, hid, hfiles⟩
    rw [hid]
    exact h.files n (mem_sortBy.mp hn) path (hfiles ▸ hpath)

theorem modulesFromFacts_grouped (facts : SealedFacts) (title : Str → Str) :
    ∃ modules, modulesFromFacts facts.toArchitectureSnapshotFacts title = .ok modules ∧
      Grouped facts.toArchitectureSnapshotFacts modules := by
  rw [modulesFromFacts]
  split
  · exact ⟨_, rfl, emptyModule_grouped _⟩
  · rename_i files _ _
    rcases Checked.collect_ok_iff.mpr (fun group _ => moduleOf_ok facts title group) with
      ⟨modules, hmodules⟩
    rw [hmodules, Checked.ok_bind]
    exact ⟨_, rfl, (grouped_of_collect hmodules).rearranged⟩

/-- Two modules share no file. -/
theorem Grouped.disjoint (h : Grouped facts modules) :
    modules.Pairwise (fun m n => List.Disjoint m.files n.files) := by
  have hids : modules.Pairwise (fun m n => m.id ≠ n.id) := pairwise_map.mp h.nodup
  refine hids.imp_of_mem (fun {m n} hm hn hne path hpath hpath' => hne ?_)
  rw [← h.files m hm path hpath, h.files n hn path hpath']

end Modules

section Nodes

variable {modules : List RepositoryModule}

theorem map_id_moduleNode (modules : List RepositoryModule) :
    (modules.map moduleNode).map ArchNode.id = modules.map RepositoryModule.id := by
  rw [map_map]
  exact map_congr_left (fun m _ => rfl)

variable {facts : ArchitectureSnapshotFacts} {id : Str}

theorem mem_dependencyNodes {node : ArchNode} (h : node ∈ dependencyNodes facts) :
    node.layer = external ∧ ∃ item ∈ facts.nodes, item.nodeKind = dependencyKind ∧
      node.id = item.stableKey := by
  rcases mem_map.mp h with ⟨item, hitem, rfl⟩
  rcases mem_filter.mp hitem with ⟨hin, htest⟩
  rw [Bool.and_eq_true, decide_eq_true_eq] at htest
  exact ⟨rfl, item, hin, htest.1, rfl⟩

theorem mem_modulesByFile {path : Str} (h : id ∈ modulesByFile modules path) :
    ∃ m ∈ modules, m.id = id := by
  rcases mem_flatMap.mp h with ⟨m, hm, hid⟩
  rcases mem_map.mp hid with ⟨_, _, rfl⟩
  exact ⟨m, hm, rfl⟩

theorem mem_modulesWithin {directory : Str} (h : id ∈ modulesWithin modules directory) :
    ∃ m ∈ modules, m.id = id := by
  rcases mem_map.mp h with ⟨m, hm, rfl⟩
  exact ⟨m, (mem_filter.mp hm).1, rfl⟩

/-- An end that is no dependency is mapped to modules. -/
theorem mem_endpointList {nodeKind stableKey : Str} {evidence : List RiEvidence} {isSubject : Bool}
    (hkind : nodeKind ≠ dependencyKind)
    (h : id ∈ endpointList facts modules nodeKind stableKey evidence isSubject) :
    ∃ m ∈ modules, m.id = id := by
  have hevidence : ∀ (path : Option Str) (items : List RiEvidence),
      id ∈ (if items.flatMap (fun item => modulesByFile modules (normalizePath item.path)) ≠ []
        then items.flatMap (fun item => modulesByFile modules (normalizePath item.path))
        else path.elim [] (modulesWithin modules)) → ∃ m ∈ modules, m.id = id := by
    intro path items hid
    split at hid
    · rcases mem_flatMap.mp hid with ⟨item, _, hid⟩
      exact mem_modulesByFile hid
    · cases path with
      | none => cases hid
      | some path => exact mem_modulesWithin hid
  rw [endpointList, if_neg hkind] at h
  by_cases hrepository : nodeKind = repositoryKind
  · rw [if_pos hrepository] at h
    rcases mem_flatMap.mp h with ⟨item, _, hid⟩
    by_cases hroot : dirname (normalizePath item.path) = []
    · simp only [hroot, if_true] at hid
      cases hid
    · simp only [hroot, if_false] at hid
      exact mem_modulesWithin hid
  · simp only [if_neg hrepository] at h
    cases hpath : pathForStableKey nodeKind stableKey with
    | none =>
      simp only [hpath] at h
      exact hevidence none _ h
    | some path =>
      simp only [hpath] at h
      by_cases hmodule : nodeKind ≠ moduleKind
      · rw [if_pos hmodule] at h
        exact mem_modulesByFile h
      · rw [if_neg hmodule] at h
        exact hevidence (some path) _ h

variable [Interpreter]

/-- The ids of modules and of dependencies have different prefixes. -/
theorem drawnIds_nodup (facts : SealedFacts)
    (h : Grouped facts.toArchitectureSnapshotFacts modules) :
    (drawnIds facts.toArchitectureSnapshotFacts modules).Nodup := by
  rw [drawnIds, drawnNodes, map_append, map_id_moduleNode]
  refine nodup_append.mpr ⟨h.nodup, ?_, ?_⟩
  · rw [dependencyNodes, map_map]
    exact facts.nodes_unique.sublist (filter_sublist.map _)
  · intro id hid id' hid' heq
    rcases mem_map.mp hid with ⟨m, hm, rfl⟩
    rcases mem_map.mp hid' with ⟨node, hnode, rfl⟩
    rcases h.named m hm with ⟨slug, hslug⟩
    rcases mem_dependencyNodes hnode with ⟨-, item, hitem, hkind, hkey⟩
    rcases facts.dependency_keys item hitem hkind with ⟨name, hname⟩
    rw [hslug, hkey, hname] at heq
    have hhead : (modulePrefix ++ slug).head? = ("dep:".toList ++ name).head? := by rw [heq]
    have hdiff : (modulePrefix ++ slug).head? ≠ ("dep:".toList ++ name).head? := by
      show some 'm' ≠ some 'd'
      decide
    exact hdiff hhead

end Nodes

section Relationships

variable {facts : ArchitectureSnapshotFacts} {modules : List RepositoryModule}
  {nodeIds : List Str} {fact : RiEdge}

variable {p : Str × Str}

theorem mem_pairs :
    p ∈ pairs facts modules nodeIds fact ↔
      (p.1 ∈ sourceIds facts modules fact ∧ p.2 ∈ targetIds facts modules fact) ∧
        p.1 ∈ nodeIds ∧ p.2 ∈ nodeIds := by
  rcases p with ⟨source, target⟩
  simp only [pairs, mem_sortBy, mem_filter, mem_flatMap, mem_map, Prod.mk.injEq,
    Bool.and_eq_true, elem_iff]
  constructor
  · rintro ⟨⟨s, hs, t, ht, rfl, rfl⟩, hin⟩
    exact ⟨⟨hs, ht⟩, hin⟩
  · rintro ⟨⟨hs, ht⟩, hin⟩
    exact ⟨⟨source, hs, target, ht, rfl, rfl⟩, hin⟩

theorem nodup_pairs : (pairs facts modules nodeIds fact).Nodup := by
  refine (perm_sortBy _ _).nodup_iff.mpr (List.Nodup.filter _ ?_)
  have hproduct : (sourceIds facts modules fact).flatMap (fun source =>
      (targetIds facts modules fact).map (fun target => (source, target))) =
        (sourceIds facts modules fact) ×ˢ (targetIds facts modules fact) := rfl
  rw [hproduct]
  exact (nodup_sortedSet _).product (nodup_sortedSet _)

theorem mem_nonSelfPairs :
    p ∈ nonSelfPairs facts modules nodeIds fact ↔
      p ∈ pairs facts modules nodeIds fact ∧ p.1 ≠ p.2 := by
  rw [nonSelfPairs, mem_filter, decide_eq_true_eq]

/-- If every pair is a node twice, then they are all the same one. -/
theorem pairs_eq_singleton (hne : pairs facts modules nodeIds fact ≠ [])
    (hself : nonSelfPairs facts modules nodeIds fact = []) :
    ∃ id ∈ sourceIds facts modules fact, pairs facts modules nodeIds fact = [(id, id)] := by
  have hsame : ∀ p ∈ pairs facts modules nodeIds fact, p.1 = p.2 := by
    intro p hp
    by_contra hdiff
    have hmem := mem_nonSelfPairs.mpr ⟨hp, hdiff⟩
    rw [hself] at hmem
    exact not_mem_nil hmem
  rcases exists_mem_of_ne_nil _ hne with ⟨⟨id, id'⟩, hp⟩
  have hid : id = id' := hsame _ hp
  subst hid
  rcases mem_pairs.mp hp with ⟨⟨hs, ht⟩, hsin, htin⟩
  refine ⟨id, hs, perm_singleton.mp ?_⟩
  refine (perm_ext_iff_of_nodup nodup_pairs (nodup_singleton _)).mpr (fun q => ?_)
  rw [mem_singleton]
  constructor
  · intro hq
    rcases mem_pairs.mp hq with ⟨⟨hqs, hqt⟩, hqsin, hqtin⟩
    have hfirst : q.1 = id := hsame (q.1, id) (mem_pairs.mpr ⟨⟨hqs, ht⟩, hqsin, htin⟩)
    have hsecond : id = q.2 := hsame (id, q.2) (mem_pairs.mpr ⟨⟨hs, hqt⟩, hsin, hqtin⟩)
    exact Prod.ext hfirst hsecond.symm
  · rintro rfl
    exact hp

/-- What the loop makes of a relationship that Architecture draws. -/
theorem mapFact_cases (h : isArchitecturePredicate fact.predicate = true) :
    (mapFact facts modules nodeIds fact).edges =
        ((nonSelfPairs facts modules nodeIds fact).zipIdx 1).map
          (pairEdge facts fact (nonSelfPairs facts modules nodeIds fact).length) ∧
      nonSelfPairs facts modules nodeIds fact ≠ [] ∨
    (mapFact facts modules nodeIds fact).edges = [] ∧
      (pairs facts modules nodeIds fact ≠ [] ∧ nonSelfPairs facts modules nodeIds fact = [] ∨
        ∃ d ∈ (mapFact facts modules nodeIds fact).diagnostics,
          (d.code = repoScopedCode ∨ d.code = endpointUnmappedCode) ∧
            d.details = some (.relationship fact.edgeId fact.predicate)) := by
  rw [mapFact]
  simp only [h, Bool.not_true, Bool.false_eq_true, if_false]
  by_cases hroot : rootScopeEvidence facts fact ≠ [] ∧
      (rootScopeEvidence facts fact).length = (facts.edgeEvidence fact.id).length
  · rw [if_pos hroot]
    refine .inr ⟨rfl, .inr ⟨repoScoped facts nodeIds fact, ?_, .inl rfl, rfl⟩⟩
    rw [if_neg hroot.1]
    exact mem_singleton_self _
  rw [if_neg hroot]
  by_cases hself : pairs facts modules nodeIds fact ≠ [] ∧
      nonSelfPairs facts modules nodeIds fact = []
  · rw [if_pos hself]
    exact .inr ⟨rfl, .inl hself⟩
  rw [if_neg hself]
  by_cases hnone : nonSelfPairs facts modules nodeIds fact = []
  · rw [if_pos hnone]
    refine .inr ⟨rfl, .inr ⟨endpointUnmapped facts modules fact, ?_, .inr rfl, rfl⟩⟩
    exact mem_append_right _ (mem_singleton_self _)
  · rw [if_neg hnone]
    exact .inl ⟨rfl, hnone⟩

theorem mapFact_nothing (h : isArchitecturePredicate fact.predicate = false) :
    mapFact facts modules nodeIds fact = Mapped.nothing := by
  rw [mapFact, h]
  rfl

/-- The edges of a relationship are those of its pairs. -/
theorem mapFact_edges :
    (mapFact facts modules nodeIds fact).edges = [] ∨
      (mapFact facts modules nodeIds fact).edges =
        ((nonSelfPairs facts modules nodeIds fact).zipIdx 1).map
          (pairEdge facts fact (nonSelfPairs facts modules nodeIds fact).length) := by
  by_cases h : isArchitecturePredicate fact.predicate = true
  · rcases @mapFact_cases facts modules nodeIds fact h with
      h | h
    · exact .inr h.1
    · exact .inl h.1
  · rw [mapFact_nothing (Bool.not_eq_true _ ▸ h)]
    exact .inl rfl

theorem mem_mapFact_edges {edge : ArchEdge}
    (h : edge ∈ (mapFact facts modules nodeIds fact).edges) :
    ∃ p ∈ nonSelfPairs facts modules nodeIds fact, ∃ index,
      edge = pairEdge facts fact (nonSelfPairs facts modules nodeIds fact).length (p, index) := by
  rcases @mapFact_edges facts modules nodeIds fact with hnil | hedges
  · rw [hnil] at h
    cases h
  · rw [hedges] at h
    rcases mem_map.mp h with ⟨⟨p, index⟩, hp, rfl⟩
    exact ⟨p, fst_mem_of_mem_zipIdx hp, index, rfl⟩

/-- The id of an edge goes on after the id of its relationship with a colon, if it does. -/
theorem indexedId_eq (fact : RiEdge) (count index : Nat) :
    ∃ rest, indexedId fact count index = fact.edgeId ++ rest ∧
      (rest = [] ∨ rest.head? = some ':') := by
  rw [indexedId]
  split
  · exact ⟨[], (append_nil _).symm, .inl rfl⟩
  · exact ⟨_, rfl, .inr rfl⟩

theorem indexedId_injective {count : Nat} (hcount : count ≠ 1) :
    Function.Injective (indexedId fact count) := by
  intro i j h
  simp only [indexedId, if_neg hcount, append_cancel_left_eq, List.cons.injEq,
    true_and] at h
  rw [← Nat.ofDigitChars_ten_toDigits (n := i), h, Nat.ofDigitChars_ten_toDigits]

/-- The edges of one relationship have different ids. -/
theorem nodup_mapFact_ids :
    ((mapFact facts modules nodeIds fact).edges.map ArchEdge.id).Nodup := by
  rcases @mapFact_edges facts modules nodeIds fact with hnil | hedges
  · rw [hnil]
    exact nodup_nil
  · rw [hedges]
    by_cases hcount : (nonSelfPairs facts modules nodeIds fact).length = 1
    · rcases length_eq_one_iff.mp hcount with ⟨p, hp⟩
      rw [hp]
      exact nodup_singleton _
    · have hids : (((nonSelfPairs facts modules nodeIds fact).zipIdx 1).map
          (pairEdge facts fact (nonSelfPairs facts modules nodeIds fact).length)).map ArchEdge.id =
            (((nonSelfPairs facts modules nodeIds fact).zipIdx 1).map Prod.snd).map
              (indexedId fact (nonSelfPairs facts modules nodeIds fact).length) := by
        rw [map_map, map_map]
        exact map_congr_left (fun p _ => rfl)
      rw [hids, zipIdx_map_snd]
      exact (nodup_range').map (indexedId_injective hcount)

end Relationships

section Assembly

/-- The parts of a model agree. -/
structure WellFormed (modules : List RepositoryModule) (response : ArchitectureResponse) :
    Prop where
  node_ids : (response.nodes.map ArchNode.id).Nodup
  module_ids : (response.modules.map ArchModule.id).Nodup
  edge_ids : (response.edges.map ArchEdge.id).Nodup
  modules_shown : response.modules = modules.map archModule
  files_disjoint : modules.Pairwise (fun m n => List.Disjoint m.files n.files)
  edge_ends : ∀ edge ∈ response.edges, edge.source ≠ edge.target ∧
    (∃ node ∈ response.nodes, node.id = edge.source) ∧
      ∃ node ∈ response.nodes, node.id = edge.target
  dependencies : ∀ node ∈ response.nodes, ∀ id, id ∈ node.dependencies ↔
    ∃ edge ∈ response.edges, edge.source = node.id ∧ edge.target = id
  dependents : ∀ node ∈ response.nodes, ∀ id, id ∈ node.dependents ↔
    ∃ edge ∈ response.edges, edge.source = id ∧ edge.target = node.id
  one_layer : ∀ node ∈ response.nodes, ∃ layer,
    response.detectedLayers.filter (fun layer => layer.nodes.elem node.id) = [layer]
  connected : ∀ node ∈ response.nodes, node.relationshipState = .connected ↔
    ∃ edge ∈ response.edges, edge.source = node.id ∨ edge.target = node.id
  diagnostic_nodes : ∀ d ∈ response.diagnostics, ∀ ids, d.nodeIds = some ids → ∀ id ∈ ids,
    ∃ node ∈ response.nodes, node.id = id

/-- A relationship is drawn with its evidence, or all pairs that it is mapped to are one
    module twice, or a diagnostic names it. -/
def Accounted (facts : ArchitectureSnapshotFacts) (modules : List RepositoryModule)
    (response : ArchitectureResponse) (fact : RiEdge) : Prop :=
  (∃ edge ∈ response.edges, ∃ item ∈ edge.evidence, item.factId = fact.edgeId) ∨
    (∃ m ∈ modules, pairs facts modules (drawnIds facts modules) fact = [(m.id, m.id)]) ∨
      ∃ d ∈ response.diagnostics, (d.code = repoScopedCode ∨ d.code = endpointUnmappedCode) ∧
        d.details = some (.relationship fact.edgeId fact.predicate)

variable {rest id : Str} {fact : RiEdge} {node : ArchNode}

/-- A hash has no colon, so an id says which relationship it belongs to. -/
theorem takeWhile_colon {digest : Str} (hdigest : ':' ∉ digest)
    (hrest : rest = [] ∨ rest.head? = some ':') :
    (digest ++ rest).takeWhile (fun c => c ≠ ':') = digest := by
  have hall : ∀ c ∈ digest, decide (c ≠ ':') = true := by
    intro c hc
    exact decide_eq_true (fun e => hdigest (e ▸ hc))
  rw [takeWhile_append_of_pos hall]
  rcases hrest with rfl | hhead
  · exact append_nil _
  · cases rest with
    | nil => exact append_nil _
    | cons c rest =>
      rw [Option.some.inj hhead]
      exact append_nil _

theorem edgeId_eq_of_append (facts : SealedFacts) {fact' : RiEdge} (hfact : fact ∈ facts.edges)
    (hfact' : fact' ∈ facts.edges) {rest' : Str} (hrest : rest = [] ∨ rest.head? = some ':')
    (hrest' : rest' = [] ∨ rest'.head? = some ':')
    (h : fact.edgeId ++ rest = fact'.edgeId ++ rest') :
    fact.edgeId = fact'.edgeId := by
  rcases facts.edge_ids fact hfact with ⟨digest, hid, hdigest⟩
  rcases facts.edge_ids fact' hfact' with ⟨digest', hid', hdigest'⟩
  rw [hid, hid', append_assoc, append_assoc] at h
  have hsame := append_cancel_left h
  rw [hid, hid', ← takeWhile_colon hdigest hrest, hsame, takeWhile_colon hdigest' hrest']

theorem edgesForModules_nodup (facts : SealedFacts) (modules : List RepositoryModule) :
    ((edgesForModules facts.toArchitectureSnapshotFacts modules).map ArchEdge.id).Nodup := by
  rw [edgesForModules, map_flatMap]
  refine nodup_flatMap.mpr ⟨fun fact _ => nodup_mapFact_ids, ?_⟩
  have hids : facts.edges.Pairwise (fun fact fact' => fact.edgeId ≠ fact'.edgeId) :=
    pairwise_map.mp facts.edges_unique
  refine hids.imp_of_mem (fun {fact fact'} hfact hfact' hne id hid hid' => hne ?_)
  rcases mem_map.mp hid with ⟨edge, hedge, rfl⟩
  rcases mem_map.mp hid' with ⟨edge', hedge', heq⟩
  rcases mem_mapFact_edges hedge with ⟨p, _, index, rfl⟩
  rcases mem_mapFact_edges hedge' with ⟨p', _, index', rfl⟩
  rcases indexedId_eq fact _ index with ⟨rest, hrest, hcolon⟩
  rcases indexedId_eq fact' _ index' with ⟨rest', hrest', hcolon'⟩
  refine edgeId_eq_of_append facts hfact hfact' hcolon hcolon' ?_
  exact hrest.symm.trans (heq.symm.trans hrest')

variable {facts : ArchitectureSnapshotFacts} {modules : List RepositoryModule}

/-- An edge is a pair of two different nodes. -/
theorem edgesForModules_ends {edge : ArchEdge} (h : edge ∈ edgesForModules facts modules) :
    edge.source ≠ edge.target ∧ edge.source ∈ drawnIds facts modules ∧
      edge.target ∈ drawnIds facts modules := by
  rcases mem_flatMap.mp h with ⟨fact, _, hedge⟩
  rcases mem_mapFact_edges hedge with ⟨p, hp, index, rfl⟩
  rcases mem_nonSelfPairs.mp hp with ⟨hpair, hne⟩
  exact ⟨hne, (mem_pairs.mp hpair).2⟩

theorem mem_endpointsOf {edges : List ArchEdge} :
    id ∈ endpointsOf edges ↔ ∃ edge ∈ edges, edge.source = id ∨ edge.target = id := by
  simp [endpointsOf, eq_comm (a := id)]

/-- An end of an edge is not taken out. -/
theorem keptNodes_ends (hdrawn : id ∈ drawnIds facts modules)
    (hend : id ∈ endpointsOf (edgesForModules facts modules)) :
    ∃ node ∈ keptNodes facts modules, node.id = id := by
  rcases mem_map.mp hdrawn with ⟨node, hnode, rfl⟩
  refine ⟨linked (edgesForModules facts modules) node, ?_, rfl⟩
  refine mem_filter.mpr ⟨mem_map_of_mem hnode, ?_⟩
  rw [Bool.or_eq_true]
  exact .inr (elem_iff.mpr hend)

theorem mem_keptNodes (h : node ∈ keptNodes facts modules) :
    ∃ drawn ∈ drawnNodes facts modules, node = linked (edgesForModules facts modules) drawn := by
  rcases mem_map.mp (mem_filter.mp h).1 with ⟨drawn, hdrawn, rfl⟩
  exact ⟨drawn, hdrawn, rfl⟩

theorem keptNodes_ids : ((keptNodes facts modules).map ArchNode.id).Sublist
    (drawnIds facts modules) := by
  have hids : ((drawnNodes facts modules).map (linked (edgesForModules facts modules))).map
      ArchNode.id = drawnIds facts modules := by
    rw [map_map]
    exact map_congr_left (fun node _ => rfl)
  rw [← hids]
  exact filter_sublist.map _

theorem mem_restricted {remaining ids : List Str} {d : ArchitectureDiagnostic}
    (h : (restricted remaining d).nodeIds = some ids) : ∀ id ∈ ids, id ∈ remaining := by
  rcases Option.bind_eq_some_iff.mp h with ⟨given, _, hids⟩
  intro id hid
  rw [orNone] at hids
  split at hids
  · exact absurd hids (Option.some_ne_none _).symm
  · rw [← Option.some.inj hids] at hid
    exact elem_iff.mp (mem_filter.mp hid).2

/-- A node stands in the layer that it names, and in no other. -/
theorem layersForNodes_one (title : Str → Str) {nodes : List ArchNode}
    (hnodup : (nodes.map ArchNode.id).Nodup) (hnode : node ∈ nodes) :
    ∃ layer, (layersForNodes title nodes).filter (fun layer => layer.nodes.elem node.id) =
      [layer] := by
  have hin : ∀ group ∈ Grouping.groups (fun node : ArchNode => some node.layer) nodes,
      node.id ∈ group.2.map ArchNode.id ↔ group.1 = node.layer := by
    intro group hgroup
    rw [(Grouping.mem_groups.mp hgroup).2]
    constructor
    · intro hid
      rcases mem_map.mp hid with ⟨other, hother, heq⟩
      rcases mem_filter.mp hother with ⟨hmem, hlayer⟩
      have hsame : other = node := inj_on_of_nodup_map hnodup hmem hnode heq
      rw [← hsame]
      exact (Option.some.inj (of_decide_eq_true hlayer)).symm
    · intro hlayer
      refine mem_map_of_mem (mem_filter.mpr ⟨hnode, ?_⟩)
      rw [hlayer]
      exact decide_eq_true rfl
  have hne : Grouping.group (fun node : ArchNode => some node.layer) nodes node.layer ≠ [] :=
    ne_nil_of_mem (mem_filter.mpr ⟨hnode, decide_eq_true rfl⟩)
  rw [layersForNodes, filter_map]
  have hperm := perm_sortBy (fun group : Str × List ArchNode => orderOf group.1)
    (Grouping.groups (fun node : ArchNode => some node.layer) nodes)
  have hsorted : (sortBy (fun group : Str × List ArchNode => orderOf group.1)
      (Grouping.groups (fun node : ArchNode => some node.layer) nodes)).filter
        (fun group => (group.2.map ArchNode.id).elem node.id) =
          [(node.layer, Grouping.group (fun node : ArchNode => some node.layer) nodes
            node.layer)] := by
    refine perm_singleton.mp ((hperm.filter _).trans ?_)
    rw [← Grouping.filter_groups hne]
    refine List.Perm.of_eq (filter_congr (fun group hmem => ?_))
    rw [Bool.eq_iff_iff, elem_iff, decide_eq_true_eq]
    exact hin group hmem
  exact ⟨_, congrArg (List.map _) hsorted⟩

/-- No relationship is lost. -/
theorem assemble_accounts (facts : SealedFacts) (title : Str → Str) (record : RepositoryRecord)
    (items : List RiDiagnostic) (hfact : fact ∈ facts.edges)
    (hpredicate : isArchitecturePredicate fact.predicate = true) :
    Accounted facts.toArchitectureSnapshotFacts modules
      (assemble title record facts.toArchitectureSnapshotFacts modules items) fact := by
  rcases @mapFact_cases facts.toArchitectureSnapshotFacts modules
    (drawnIds facts.toArchitectureSnapshotFacts modules) fact hpredicate with
      ⟨hedges, hne⟩ | ⟨-, ⟨hpairs, hself⟩ | ⟨d, hd, hcode, hdetails⟩⟩
  · left
    rcases exists_mem_of_ne_nil _ (facts.edges_evident fact hfact) with ⟨item, hitem⟩
    rcases exists_mem_of_ne_nil _ hne with ⟨p, hp⟩
    rw [← zipIdx_map_fst 1 (nonSelfPairs _ _ _ _)] at hp
    rcases mem_map.mp hp with ⟨⟨p, index⟩, hindex, -⟩
    have hedge := mem_map_of_mem (f := pairEdge facts.toArchitectureSnapshotFacts fact
      (nonSelfPairs facts.toArchitectureSnapshotFacts modules
        (drawnIds facts.toArchitectureSnapshotFacts modules) fact).length) hindex
    rw [← hedges] at hedge
    exact ⟨_, mem_flatMap.mpr ⟨fact, hfact, hedge⟩,
      citation facts.toArchitectureSnapshotFacts fact item, mem_map_of_mem hitem, rfl⟩
  · right; left
    rcases pairs_eq_singleton hpairs hself with ⟨id, hid, hpair⟩
    rcases mem_endpointList (facts.subject_kinds fact hfact) (mem_sortedSet.mp hid) with
      ⟨m, hm, hmid⟩
    exact ⟨m, hm, by rw [hpair, hmid]⟩
  · right; right
    refine ⟨_, mem_map_of_mem (mem_append_right _ (mem_flatMap.mpr
      ⟨fact, hfact, hd⟩)), hcode, hdetails⟩

variable [Interpreter]

theorem assemble_wellFormed (facts : SealedFacts)
    (h : Grouped facts.toArchitectureSnapshotFacts modules) (title : Str → Str)
    (record : RepositoryRecord) (items : List RiDiagnostic) :
    WellFormed modules (assemble title record facts.toArchitectureSnapshotFacts modules items) := by
  have hids : ((keptNodes facts.toArchitectureSnapshotFacts modules).map ArchNode.id).Nodup :=
    (drawnIds_nodup facts h).sublist keptNodes_ids
  have hshown : ∀ {id : Str},
      (∃ node ∈ keptNodes facts.toArchitectureSnapshotFacts modules, node.id = id) →
        ∃ node ∈ (assemble title record facts.toArchitectureSnapshotFacts modules items).nodes,
          node.id = id := by
    rintro id ⟨node, hnode, rfl⟩
    exact ⟨_, mem_map_of_mem hnode, rfl⟩
  have hnodes : ((assemble title record facts.toArchitectureSnapshotFacts modules items).nodes.map
      ArchNode.id).Nodup := by
    rw [assemble, map_map]
    exact hids
  constructor
  · exact hnodes
  · rw [assemble, map_map]
    exact h.nodup
  · exact edgesForModules_nodup facts modules
  · rfl
  · exact h.disjoint
  -- both ends of an edge are drawn nodes, and a drawn node with an edge is kept
  · intro edge hedge
    rcases edgesForModules_ends hedge with ⟨hne, hsource, htarget⟩
    refine ⟨hne, hshown (keptNodes_ends hsource ?_), hshown (keptNodes_ends htarget ?_)⟩
    · exact mem_endpointsOf.mpr ⟨edge, hedge, .inl rfl⟩
    · exact mem_endpointsOf.mpr ⟨edge, hedge, .inr rfl⟩
  -- what a node depends on and what depends on it are read off the same edges
  · intro node hnode id
    rcases mem_map.mp hnode with ⟨kept, hkept, rfl⟩
    rcases mem_keptNodes hkept with ⟨drawn, -, rfl⟩
    simp [withState, linked, mem_sortedSet, assemble, and_assoc]
  · intro node hnode id
    rcases mem_map.mp hnode with ⟨kept, hkept, rfl⟩
    rcases mem_keptNodes hkept with ⟨drawn, -, rfl⟩
    simp [withState, linked, mem_sortedSet, assemble, and_assoc, and_comm]
  · intro node hnode
    exact layersForNodes_one title hnodes hnode
  · intro node hnode
    rcases mem_map.mp hnode with ⟨kept, hkept, rfl⟩
    -- the state of a node says whether one of its edges is drawn
    rw [withState, assemble, ← mem_endpointsOf]
    by_cases hend : kept.id ∈
        endpointsOf (edgesForModules facts.toArchitectureSnapshotFacts modules)
    · simp [hend]
    · simp only [elem_eq_mem, hend, decide_false, Bool.false_eq_true, if_false, iff_false]
      split
      · exact RelationshipState.noConfusion
      · split
        · exact RelationshipState.noConfusion
        · exact RelationshipState.noConfusion
  · intro d hd ids hsome id hid
    rcases mem_map.mp hd with ⟨given, _, rfl⟩
    rcases mem_map.mp (mem_restricted hsome id hid) with ⟨node, hnode, rfl⟩
    exact hshown ⟨node, hnode, rfl⟩

end Assembly

section Sample

/-- A file node. -/
def fileNode (id : Nat) (path : String) : RiNode :=
  { id := id
    stableKey := "file:".toList ++ path.toList
    nodeKind := "file".toList
    name := some path.toList
    language := some "typescript".toList
    routePath := none }

def rootNode : RiNode :=
  { id := 1
    stableKey := "repo:root".toList
    nodeKind := repositoryKind
    name := none
    language := none
    routePath := none }

def reactNode : RiNode :=
  { id := 2
    stableKey := "dep:npm:react".toList
    nodeKind := dependencyKind
    name := some "react".toList
    language := none
    routePath := none }

def edgeBetween (id : Nat) (predicate : String) (subject object : RiNode) : RiEdge :=
  { id := id
    edgeId := "edge:sha256:".toList ++ Nat.toDigits 10 id
    subjectKind := subject.nodeKind
    subjectKey := subject.stableKey
    predicate := predicate.toList
    objectKind := object.nodeKind
    objectKey := object.stableKey }

/-- The diagnostic of an import of `src/a.ts` that is not resolved. -/
def unresolvedImport : RiDiagnostic :=
  { id := 1
    code := Insights.riResUnresolved
    severity := .warning
    message := "import target is absent from the snapshot".toList
    path := some "src/a.ts".toList
    spanStartLine := some 1
    spanEndLine := some 1
    producer := "relationship-resolver".toList
    subjectKey := some "file:src/a.ts".toList
    objectKey := none
    observationId := some "obs".toList
    category := "relationship resolution".toList }

/-- Two files, one of which imports the other and a package that is declared at the root. -/
def sampleFacts : SealedFacts :=
  { snapshotId := "snapshot".toList
    revisionKind := "git".toList
    revisionValue := "head".toList
    nodes := [rootNode, reactNode, fileNode 3 "src/a.ts", fileNode 4 "src/b.ts"]
    symbolKeys := ["src/a.ts::start".toList, "src/b.ts::help".toList]
    edges :=
      [edgeBetween 1 "imports" (fileNode 3 "src/a.ts") (fileNode 4 "src/b.ts"),
        edgeBetween 2 "imports" (fileNode 3 "src/a.ts") reactNode,
        edgeBetween 3 "depends_on" rootNode reactNode]
    assertions := []
    nodeEvidence := fun _ => []
    edgeEvidence := fun id =>
      if id = 3 then [{ path := "package.json".toList, startLine := 2, endLine := 2 }]
      else [{ path := "src/a.ts".toList, startLine := 1, endLine := 1 }]
    diagnostics := [unresolvedImport]
    coveredPaths := ["src/a.ts".toList, "src/b.ts".toList]
    nodes_unique := by decide
    edges_unique := by decide
    subjects := by decide
    objects := by decide
    dependency_keys := by
      intro node hnode hkind
      refine ⟨node.stableKey.drop 4, ?_⟩
      revert node
      decide
    edge_ids := by
      intro edge hedge
      refine ⟨edge.edgeId.drop 12, ?_⟩
      revert edge
      decide
    edges_evident := by decide
    file_roles := by
      intro a ha
      exact absurd ha List.not_mem_nil
    subject_kinds := by decide }

/-- The rows that the import of a specifier leaves. -/
def importRows (specifier : String) : Insights.Rows :=
  { nodes := []
    observations :=
      [{ id := 1
         observationId := "obs".toList
         observedKind := "import".toList
         referentText := some specifier.toList }]
    evidence := []
    diagnostics := [unresolvedImport.toRiDiagnostic] }

end Sample

section Building

variable [Unicode] [Interpreter]

/-- The items are found if every diagnostic can be judged. -/
theorem diagnosticItems_ok [Insights.LawfulLower] {ctx : Insights.Context}
    {facts : ArchitectureSnapshotFacts} :
    (∃ items, diagnosticItems ctx facts = .ok items) ↔
      ∀ d ∈ facts.diagnostics, Insights.Classifiable ctx d.toRiDiagnostic := by
  have hselect : (∃ items, diagnosticItems ctx facts = .ok items) ↔
      ∃ items, Checked.select (fun item : RiDiagnostic =>
        Insights.isArchitectureRelevant ctx item.toRiDiagnostic) facts.diagnostics = .ok items := by
    rw [diagnosticItems]
    cases Checked.select (fun item : RiDiagnostic =>
        Insights.isArchitectureRelevant ctx item.toRiDiagnostic) facts.diagnostics with
    | ok items => exact ⟨fun _ => ⟨items, rfl⟩, fun _ => ⟨items, rfl⟩⟩
    | error e =>
      simp
  rw [hselect, Checked.select_ok_iff]
  exact forall₂_congr (fun d _ => Insights.isArchitectureRelevant_ok)

/-- A model that is well formed and accounts for every relationship is returned exactly if
    every diagnostic can be judged. -/
theorem build_accounts [Insights.LawfulLower] (title : Str → Str) (record : RepositoryRecord)
    (facts : SealedFacts) (ctx : Insights.Context) :
    (∃ modules response,
      modulesFromFacts facts.toArchitectureSnapshotFacts title = .ok modules ∧
      buildArchitecture title record facts.toArchitectureSnapshotFacts ctx = .ok response ∧
      WellFormed modules response ∧
      ∀ fact ∈ facts.edges, isArchitecturePredicate fact.predicate = true →
        Accounted facts.toArchitectureSnapshotFacts modules response fact) ↔
      ∀ d ∈ facts.diagnostics, Insights.Classifiable ctx d.toRiDiagnostic := by
  rw [← diagnosticItems_ok]
  constructor
  · rintro ⟨modules, response, hmodules, hbuild, -⟩
    rw [buildArchitecture, hmodules, Checked.ok_bind] at hbuild
    rcases Checked.bind_eq_ok.mp hbuild with ⟨items, hitems, -⟩
    exact ⟨items, hitems⟩
  · rintro ⟨items, hitems⟩
    rcases modulesFromFacts_grouped facts title with ⟨modules, hmodules, hgrouped⟩
    refine ⟨modules, _, hmodules, ?_, assemble_wellFormed facts hgrouped title record items,
      fun fact hfact hpredicate => assemble_accounts facts title record items hfact hpredicate⟩
    rw [buildArchitecture, hmodules, Checked.ok_bind, hitems, Checked.ok_bind]

end Building

section Runs

/-- Two files and a package, and an import of the package that was not resolved. -/
theorem build_accounts_sample :
    ∃ modules response,
      @modulesFromFacts sampleFacts.toArchitectureSnapshotFacts cpython id = .ok modules ∧
      @buildArchitecture asciiText cpython id ⟨[], []⟩ sampleFacts.toArchitectureSnapshotFacts
        (Insights.loadContext (importRows "react")) = .ok response ∧
      WellFormed modules response ∧
      ∀ fact ∈ sampleFacts.edges, isArchitecturePredicate fact.predicate = true →
        Accounted sampleFacts.toArchitectureSnapshotFacts modules response fact := by
  refine (@build_accounts asciiText cpython inferInstance id ⟨[], []⟩ sampleFacts
    (Insights.loadContext (importRows "react"))).mpr (fun d hd _ j hj => ?_)
  rw [mem_singleton.mp hd] at hj
  have hjudged : Insights.judgedSpecifier (Insights.loadContext (importRows "react"))
      unresolvedImport.toRiDiagnostic = some ("react".toList, "src/a.ts".toList) := by decide
  rw [hjudged] at hj
  cases hj
  intro _ _ _
  decide

/-- A specifier with a tab has no key, and there is no model at all. -/
theorem build_refused :
    ¬ ∃ modules response,
      @modulesFromFacts sampleFacts.toArchitectureSnapshotFacts cpython id = .ok modules ∧
      @buildArchitecture asciiText cpython id ⟨[], []⟩ sampleFacts.toArchitectureSnapshotFacts
        (Insights.loadContext (importRows "lib\tname")) = .ok response ∧
      WellFormed modules response ∧
      ∀ fact ∈ sampleFacts.edges, isArchitecturePredicate fact.predicate = true →
        Accounted sampleFacts.toArchitectureSnapshotFacts modules response fact := by
  rintro ⟨modules, response, hmodules, hbuild, -⟩
  have hitems : @diagnosticItems asciiText cpython
      (Insights.loadContext (importRows "lib\tname")) sampleFacts.toArchitectureSnapshotFacts =
        .error (.canonical
          (.canonicalization "stable keys cannot contain control characters")) := by
    rfl
  unfold buildArchitecture at hbuild
  rw [hmodules, Checked.ok_bind, hitems, Checked.error_bind] at hbuild
  cases hbuild

end Runs

end Architecture

end Partha
