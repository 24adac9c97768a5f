import Mathlib.Tactic.Choose
import Partha.Library.Rows
import Partha.Review.Support

/-!
# One Disposition for Every Reader

Repository Insights, the Architecture view and the Engineering Review each load
the context of a snapshot on their own and judge its unresolved references with
it. They agree if the judgement does not depend on the order in which the rows
come back.

All of the context but one part is sets and dictionaries with unique keys.
The part is the import bindings, where the first binding of a local name counts.
A file may well bind a name twice, in the two branches of a `try` for one. So a
reference has as many possible specifiers as its name has bindings, and some
order of the rows puts each of them first.

`Unambiguous` says that all of them are judged alike, and `dispositions_shared`
that this is exactly when all readers agree on all references in all orders.

## Main definitions

* `Sealed`: A snapshot with the unique keys of its tables.
* `Reordered`: The rows of a snapshot in another order.
* `specifiers`: The specifiers that a reference may be judged by.
* `Unambiguous`: A reference whose specifiers are judged alike.
* `Shared`: What the readers of one order say, compared with a judgement.

## Theorems

* `judgeSpecifier_reordered`: The judgement of a specifier has no order.
* `dispositionOf_reordered`: A reference is judged by one of its specifiers.
* `specifier_first`: Each of them comes first in some order.
* `dispositions_shared`: When the readers agree.
* `dispositions_disagree`: Two orders of one snapshot with two judgements.
-/

namespace Partha

namespace Review

open Canonical Insights Checked List

/-- The rows of a sealed snapshot. Row identifiers and observation identifiers
    are unique. -/
structure Sealed where
  rows : Rows
  nodeIds : (rows.nodes.map (·.id)).Nodup
  observationPks : (rows.observations.map (·.id)).Nodup
  observationIds : (rows.observations.map (·.observationId)).Nodup

/-- The same rows in another order. -/
structure Reordered (rows rows' : Rows) : Prop where
  nodes : rows.nodes.Perm rows'.nodes
  observations : rows.observations.Perm rows'.observations
  evidence : rows.evidence.Perm rows'.evidence
  diagnostics : rows.diagnostics.Perm rows'.diagnostics

/-- The specifiers that the evidence rows give for a name in a file. -/
def bindingSpecifiers (rows : Rows) (path referent : Str) : List Str :=
  ((rows.evidence.filterMap (bindingOf rows.observations)).filter
    (fun b => b.1 = (path, referent))).map (·.2)

/-- The specifiers that a reference may be judged by: that of an import, or
    those that its file binds the name to. -/
def specifiers (rows : Rows) (d : RiDiagnostic) : List Str :=
  let path := d.path.getD []
  if path = [] ∨ d.message = shadowedCallMessage then []
  else match rows.observations.find? (fun o => o.observationId = d.observationId.getD []) with
    | none => []
    | some o =>
      let referent := o.referentText.getD []
      if referent = [] then []
      else if o.observedKind = "import".toList then [referent]
      else if referenceKinds.elem o.observedKind then bindingSpecifiers rows path referent
      else []

section Orders

variable {rows rows' : Rows}

theorem Reordered.refl (rows : Rows) : Reordered rows rows :=
  ⟨.refl _, .refl _, .refl _, .refl _⟩

variable {observations observations' : List RiObservation} {l l' : List Str}
  {bindings : List ((Str × Str) × Str)} {k : Str × Str}

theorem bindingReferent_perm (hn : (observations.map (·.id)).Nodup)
    (hp : observations.Perm observations') :
    bindingReferent observations = bindingReferent observations' := by
  funext pk
  rw [bindingReferent, bindingReferent, Rows.find?_perm hn hp pk]

theorem bindingOf_perm (hn : (observations.map (·.id)).Nodup)
    (hp : observations.Perm observations') :
    bindingOf observations = bindingOf observations' := by
  funext e
  unfold bindingOf
  rw [bindingReferent_perm hn hp]

/-- The bindings that are read, in the order of the evidence rows. -/
theorem bindings_perm (s : Sealed) (hr : Reordered s.rows rows') :
    (s.rows.evidence.filterMap (bindingOf s.rows.observations)).Perm
      (rows'.evidence.filterMap (bindingOf rows'.observations)) := by
  rw [← bindingOf_perm s.observationPks hr.observations]
  exact hr.evidence.filterMap _

theorem scannedPaths_perm (hr : Reordered rows rows') :
    (scannedPaths rows).Perm (scannedPaths rows') := by
  unfold scannedPaths
  exact ((hr.nodes.filter _).filterMap _).append ((hr.evidence.map _).filter _)

theorem elem_eq_of_perm (h : l.Perm l') (a : Str) : l.elem a = l'.elem a := by
  rw [Bool.eq_iff_iff, elem_iff, elem_iff, h.mem_iff]

theorem eq_nil_iff_of_perm (h : l.Perm l') : l = [] ↔ l' = [] := by
  rw [← length_eq_zero_iff, ← length_eq_zero_iff, h.length_eq]

theorem resolvesToInRepoFile_perm {files files' directories directories' : List Str}
    (hf : files.Perm files') (hd : directories.Perm directories') (specifier path : Str) :
    resolvesToInRepoFile specifier path files directories
      = resolvesToInRepoFile specifier path files' directories' := by
  unfold resolvesToInRepoFile pythonModuleInRepo jsAliasInRepo
  simp only [elem_eq_of_perm hf, elem_eq_of_perm hd, eq_nil_iff_of_perm hf]

theorem lookup_observation (s : Sealed) (hr : Reordered s.rows rows') {α : Type}
    (val : RiObservation → α) (k : Str) :
    ((rows'.observations.map (fun o => (o.observationId, val o))).reverse).lookup k
      = (s.rows.observations.find? (fun o => o.observationId = k)).map val := by
  have hn : (rows'.observations.map (·.observationId)).Nodup :=
    (hr.observations.map _).nodup_iff.mp s.observationIds
  rw [Rows.lookup_map_reverse hn, Rows.find?_perm s.observationIds hr.observations k]

/-- The first binding of a name is one of its specifiers. -/
theorem lookup_binding {specifier : Str} (h : bindings.lookup k = some specifier) :
    specifier ∈ (bindings.filter (fun b => b.1 = k)).map (·.2) := by
  induction bindings with
  | nil => cases h
  | cons b bindings ih =>
    rw [lookup_cons] at h
    by_cases hk : b.1 = k
    · rw [hk, beq_self_eq_true] at h
      cases h
      rw [filter_cons_of_pos (by rw [hk]; exact decide_eq_true rfl), map_cons]
      exact mem_cons_self
    · rw [beq_eq_false_iff_ne.mpr (Ne.symm hk)] at h
      rw [filter_cons_of_neg (by rw [decide_eq_false hk]; exact Bool.false_ne_true)]
      exact ih h

theorem lookup_binding_eq_none :
    bindings.lookup k = none ↔ (bindings.filter (fun b => b.1 = k)).map (·.2) = [] := by
  induction bindings with
  | nil => exact ⟨fun _ => rfl, fun _ => rfl⟩
  | cons b bindings ih =>
    rw [lookup_cons]
    by_cases hk : b.1 = k
    · rw [hk, beq_self_eq_true,
        filter_cons_of_pos (by rw [hk]; exact decide_eq_true rfl), map_cons]
      exact ⟨fun h => (by cases h), fun h => (by cases h)⟩
    · rw [beq_eq_false_iff_ne.mpr (Ne.symm hk),
        filter_cons_of_neg (by rw [decide_eq_false hk]; exact Bool.false_ne_true)]
      exact ih

theorem bindingSpecifiers_perm (s : Sealed) (hr : Reordered s.rows rows') (path referent : Str) :
    (bindingSpecifiers s.rows path referent).Perm (bindingSpecifiers rows' path referent) :=
  ((bindings_perm s hr).filter _).map _

end Orders

section Judging

variable [Unicode] [Interpreter] {rows' : Rows}

theorem isRecognizedExternalImport_perm {declared declared' : List Str}
    (h : declared.Perm declared') (specifier path : Str) :
    isRecognizedExternalImport specifier path declared
      = isRecognizedExternalImport specifier path declared' := by
  unfold isRecognizedExternalImport
  simp only [elem_eq_of_perm h]

/-- The judgement of a specifier does not depend on the order of the rows. -/
theorem judgeSpecifier_reordered (s : Sealed) (hr : Reordered s.rows rows')
    (specifier path : Str) :
    judgeSpecifier specifier path (loadContext rows')
      = judgeSpecifier specifier path (loadContext s.rows) := by
  have hfiles := scannedPaths_perm hr
  have hexternal : isRecognizedExternalImport specifier path
      (loadContext rows').declaredDependencyKeys
      = isRecognizedExternalImport specifier path (loadContext s.rows).declaredDependencyKeys :=
    isRecognizedExternalImport_perm ((hr.nodes.filter _).map _).symm specifier path
  have hrepo : resolvesToInRepoFile specifier path (loadContext rows').filePaths
      (loadContext rows').directoryPaths
      = resolvesToInRepoFile specifier path (loadContext s.rows).filePaths
        (loadContext s.rows).directoryPaths :=
    resolvesToInRepoFile_perm hfiles.symm (hfiles.symm.flatMap_right _) specifier path
  unfold judgeSpecifier
  rw [hexternal, hrepo]

/-- A reference whose specifiers are all judged alike. -/
def Unambiguous (rows : Rows) (d : RiDiagnostic) : Prop :=
  ∃ disposition, ∀ specifier ∈ specifiers rows d,
    judgeSpecifier specifier (d.path.getD []) (loadContext rows) = .ok disposition

variable {d : RiDiagnostic} {o : RiObservation}

/-- The judgement of a reference whose observation is known. -/
theorem dispositionOf_eq (ctx : Context) (hpath : d.path.getD [] ≠ [])
    (hmessage : d.message ≠ shadowedCallMessage)
    (hkind : ctx.observedKindByObservation.lookup (d.observationId.getD []) = some o.observedKind)
    (hreferent : ctx.referentByObservation.lookup (d.observationId.getD [])
      = some o.referentText) :
    dispositionOf ctx d =
      if o.referentText.getD [] = [] then .ok .gap
      else if o.observedKind = "import".toList then
        judgeSpecifier (o.referentText.getD []) (d.path.getD []) ctx
      else if referenceKinds.elem o.observedKind then
        match ctx.importSpecifierByLocalName.lookup (d.path.getD [], o.referentText.getD []) with
        | none =>
          if isPlatformReference (o.referentText.getD []) (d.path.getD []) then .ok .external
          else .ok .gap
        | some specifier => judgeSpecifier specifier (d.path.getD []) ctx
      else .ok .gap := by
  unfold dispositionOf classifyUnresolved
  cases hlocal : ctx.importSpecifierByLocalName.lookup
      (d.path.getD [], o.referentText.getD []) with
  | none =>
    simp only [hpath, hmessage, hkind, hreferent, hlocal, if_false, Option.some.injEq,
      Option.join_some, Option.any_some]
  | some specifier =>
    simp only [hpath, hmessage, hkind, hreferent, hlocal, if_false, Option.some.injEq,
      Option.join_some, Option.any_some]

omit [Unicode] [Interpreter] in
theorem specifiers_eq {rows : Rows} (hpath : d.path.getD [] ≠ [])
    (hmessage : d.message ≠ shadowedCallMessage)
    (ho : rows.observations.find? (fun o => o.observationId = d.observationId.getD []) = some o) :
    specifiers rows d =
      if o.referentText.getD [] = [] then []
      else if o.observedKind = "import".toList then [o.referentText.getD []]
      else if referenceKinds.elem o.observedKind then
        bindingSpecifiers rows (d.path.getD []) (o.referentText.getD [])
      else [] := by
  unfold specifiers
  simp only [hpath, hmessage, ho, or_self, if_false]

/-- A reference is judged by one of its specifiers, or in every order alike. -/
theorem dispositionOf_reordered (s : Sealed) (d : RiDiagnostic) :
    (specifiers s.rows d = [] ∧ ∃ disposition, ∀ rows', Reordered s.rows rows' →
      dispositionOf (loadContext rows') d = .ok disposition) ∨
    (specifiers s.rows d ≠ [] ∧ ∀ rows', Reordered s.rows rows' →
      ∃ specifier ∈ specifiers s.rows d, dispositionOf (loadContext rows') d
        = judgeSpecifier specifier (d.path.getD []) (loadContext s.rows)) := by
  -- Without a path, with the message of a local name, or without an observation nothing is read.
  by_cases hpath : d.path.getD [] = []
  · left
    refine ⟨?_, .gap, fun rows' hr => ?_⟩
    · unfold specifiers
      exact if_pos (.inl hpath)
    · unfold dispositionOf classifyUnresolved
      exact if_pos hpath
  by_cases hmessage : d.message = shadowedCallMessage
  · left
    refine ⟨?_, .localBinding, fun rows' hr => ?_⟩
    · unfold specifiers
      exact if_pos (.inr hmessage)
    · unfold dispositionOf classifyUnresolved
      simp only [if_neg hpath, hmessage, if_true]
  cases ho : s.rows.observations.find? (fun o => o.observationId = d.observationId.getD []) with
  | none =>
    left
    refine ⟨?_, .gap, fun rows' hr => ?_⟩
    · unfold specifiers
      simp only [hpath, hmessage, ho, or_self, if_false]
    · have hreferent : (loadContext rows').referentByObservation.lookup
          (d.observationId.getD []) = none := by
        rw [loadContext, lookup_observation s hr, ho]
        rfl
      unfold dispositionOf classifyUnresolved
      simp only [hpath, hmessage, hreferent, if_false, Option.some.injEq, Option.join_none,
        Option.getD_none, if_true]
  | some o =>
    have heq := fun rows' hr => dispositionOf_eq (loadContext rows') hpath hmessage
      (by rw [loadContext, lookup_observation s hr, ho]; rfl)
      (by rw [loadContext, lookup_observation s hr, ho]; rfl)
    rw [specifiers_eq hpath hmessage ho]
    by_cases hempty : o.referentText.getD [] = []
    · left
      exact ⟨if_pos hempty, .gap, fun rows' hr => by rw [heq rows' hr, if_pos hempty]⟩
    rw [if_neg hempty]
    -- An import is judged by its own specifier.
    by_cases himport : o.observedKind = "import".toList
    · right
      rw [if_pos himport]
      refine ⟨cons_ne_nil _ _, fun rows' hr => ⟨_, mem_singleton.mpr rfl, ?_⟩⟩
      rw [heq rows' hr, if_neg hempty, if_pos himport, judgeSpecifier_reordered s hr]
    rw [if_neg himport]
    -- A reference is judged by the binding that the order reads first.
    by_cases hreference : referenceKinds.elem o.observedKind = true
    · rw [if_pos hreference]
      by_cases hnone : bindingSpecifiers s.rows (d.path.getD []) (o.referentText.getD []) = []
      · -- No binding is read in any order, so the language decides.
        left
        refine ⟨hnone, if isPlatformReference (o.referentText.getD []) (d.path.getD [])
          then .external else .gap, fun rows' hr => ?_⟩
        have hlookup : (loadContext rows').importSpecifierByLocalName.lookup
            (d.path.getD [], o.referentText.getD []) = none := by
          refine lookup_binding_eq_none.mpr ?_
          have hperm := bindingSpecifiers_perm s hr (d.path.getD []) (o.referentText.getD [])
          rw [hnone] at hperm
          exact hperm.nil_eq.symm
        rw [heq rows' hr, if_neg hempty, if_neg himport, if_pos hreference, hlookup]
        exact (apply_ite Except.ok _ _ _).symm
      · right
        refine ⟨hnone, fun rows' hr => ?_⟩
        have hperm := bindingSpecifiers_perm s hr (d.path.getD []) (o.referentText.getD [])
        cases hlookup : (loadContext rows').importSpecifierByLocalName.lookup
            (d.path.getD [], o.referentText.getD []) with
        | none =>
          have hnil : bindingSpecifiers rows' (d.path.getD []) (o.referentText.getD []) = [] :=
            lookup_binding_eq_none.mp hlookup
          rw [hnil] at hperm
          exact absurd hperm.eq_nil hnone
        | some specifier =>
          refine ⟨specifier, hperm.mem_iff.mpr (lookup_binding hlookup), ?_⟩
          rw [heq rows' hr, if_neg hempty, if_neg himport, if_pos hreference, hlookup]
          exact judgeSpecifier_reordered s hr specifier _
    · left
      rw [if_neg hreference]
      exact ⟨rfl, .gap, fun rows' hr => by
        rw [heq rows' hr, if_neg hempty, if_neg himport, if_neg hreference]⟩

/-- Some order reads a given binding before all others. -/
theorem specifier_first (s : Sealed) {specifier : Str} (h : specifier ∈ specifiers s.rows d) :
    ∃ rows', Reordered s.rows rows' ∧
      dispositionOf (loadContext rows') d
        = judgeSpecifier specifier (d.path.getD []) (loadContext s.rows) := by
  have hpath : d.path.getD [] ≠ [] := by
    intro hpath
    rw [specifiers, if_pos (.inl hpath)] at h
    cases h
  have hmessage : d.message ≠ shadowedCallMessage := by
    intro hmessage
    rw [specifiers, if_pos (.inr hmessage)] at h
    cases h
  cases ho : s.rows.observations.find? (fun o => o.observationId = d.observationId.getD []) with
  | none =>
    unfold specifiers at h
    simp only [hpath, hmessage, ho, or_self, if_false] at h
    cases h
  | some o =>
    have heq := fun rows' hr => dispositionOf_eq (loadContext rows') hpath hmessage
      (by rw [loadContext, lookup_observation s hr, ho]; rfl)
      (by rw [loadContext, lookup_observation s hr, ho]; rfl)
    rw [specifiers_eq hpath hmessage ho] at h
    by_cases hempty : o.referentText.getD [] = []
    · rw [if_pos hempty] at h
      cases h
    rw [if_neg hempty] at h
    by_cases himport : o.observedKind = "import".toList
    · rw [if_pos himport, mem_singleton] at h
      refine ⟨s.rows, Reordered.refl s.rows, ?_⟩
      rw [heq _ (Reordered.refl s.rows), if_neg hempty, if_pos himport, h]
    rw [if_neg himport] at h
    by_cases hreference : referenceKinds.elem o.observedKind = true
    · rw [if_pos hreference] at h
      simp only [bindingSpecifiers, mem_map, mem_filter, mem_filterMap,
        decide_eq_true_eq] at h
      rcases h with ⟨⟨key, specifier'⟩, ⟨⟨e, he, hbinding⟩, hkey⟩, hspecifier⟩
      dsimp only at hkey hspecifier
      subst hkey hspecifier
      -- The evidence row of the binding is moved to the front.
      have hr : Reordered s.rows { s.rows with evidence := e :: s.rows.evidence.erase e } :=
        ⟨.refl _, .refl _, perm_cons_erase he, .refl _⟩
      refine ⟨_, hr, ?_⟩
      have hlookup : (loadContext
          { s.rows with
            evidence := e :: s.rows.evidence.erase e }).importSpecifierByLocalName.lookup
            (d.path.getD [], o.referentText.getD []) = some specifier' := by
        simp only [loadContext, filterMap_cons, hbinding, lookup_cons,
          beq_self_eq_true]
      rw [heq _ hr, if_neg hempty, if_neg himport, if_pos hreference, hlookup]
      exact judgeSpecifier_reordered s hr _ _
    · rw [if_neg hreference] at h
      cases h

/-- A reference has one disposition in all orders exactly if it is unambiguous. -/
theorem unambiguous_iff (s : Sealed) (d : RiDiagnostic) :
    (∃ disposition, ∀ rows', Reordered s.rows rows' →
      dispositionOf (loadContext rows') d = .ok disposition) ↔ Unambiguous s.rows d := by
  constructor
  · rintro ⟨disposition, hall⟩
    refine ⟨disposition, fun specifier hspecifier => ?_⟩
    rcases specifier_first s hspecifier with ⟨rows', hr, hfirst⟩
    rw [← hfirst]
    exact hall rows' hr
  · rintro ⟨disposition, hall⟩
    rcases dispositionOf_reordered s d with ⟨_, hsame⟩ | ⟨_, hsome⟩
    · exact hsame
    · refine ⟨disposition, fun rows' hr => ?_⟩
      rcases hsome rows' hr with ⟨specifier, hspecifier, heq⟩
      rw [heq]
      exact hall specifier hspecifier

end Judging

section Readers

/-- A reference that is shown as a gap: one whose target is unknown, or known to
    be in the repository and not linked. -/
def InRepo (disposition : Disposition) : Bool :=
  disposition = .gap || disposition = .inRepoTargetExists

/-- The unresolved references of a snapshot that a judgement puts in a bucket. -/
def bucket (rows : Rows) (disposition : RiDiagnostic → Disposition) (p : Disposition → Bool) :
    List RiDiagnostic :=
  rows.diagnostics.filter (fun d => d.unresolved && p (disposition d))

theorem Split.foldl_count (disposition : RiDiagnostic → Disposition) (ds : List RiDiagnostic)
    (split : Split) :
    (ds.foldl (fun split d => split.count (disposition d)) split).inRepoGap
        = split.inRepoGap + ds.countP (fun d => InRepo (disposition d)) ∧
      (ds.foldl (fun split d => split.count (disposition d)) split).externalReference
        = split.externalReference + ds.countP (fun d => disposition d = .external) ∧
      (ds.foldl (fun split d => split.count (disposition d)) split).localBinding
        = split.localBinding + ds.countP (fun d => disposition d = .localBinding) ∧
      (ds.foldl (fun split d => split.count (disposition d)) split).nonCodeAsset
        = split.nonCodeAsset + ds.countP (fun d => disposition d = .nonCodeAsset) ∧
      (ds.foldl (fun split d => split.count (disposition d)) split).total
        = split.total + ds.length := by
  induction ds generalizing split with
  | nil => exact ⟨rfl, rfl, rfl, rfl, rfl⟩
  | cons d ds ih =>
    simp only [foldl_cons, countP_cons, length_cons]
    rcases ih (split.count (disposition d)) with ⟨hgap, hexternal, hlocal, hasset, htotal⟩
    rw [hgap, hexternal, hlocal, hasset, htotal]
    -- One bucket takes the diagnostic, whichever the disposition is.
    cases disposition d with
    | _ =>
      simp only [Split.count, Split.total, InRepo, reduceCtorEq, decide_true, decide_false,
        Bool.or_self, Bool.or_true, Bool.true_or, if_true, Bool.false_eq_true, if_false]
      omega

variable [Unicode] [Interpreter] {rows rows' : Rows} {disposition : RiDiagnostic → Disposition}

/-- What the readers of one order make of the unresolved references, compared
    with a judgement of them. -/
structure Shared (rows : Rows) (disposition : RiDiagnostic → Disposition) (rows' : Rows) :
    Prop where
  same : ∀ d ∈ rows.diagnostics, d.unresolved = true →
    dispositionOf (loadContext rows') d = .ok (disposition d)
  insights : ∃ split, insightsSplit rows' = .ok split ∧
    split.total = rows.diagnostics.countP RiDiagnostic.unresolved ∧
    split.inRepoGap = (bucket rows disposition InRepo).length ∧
    split.externalReference = (bucket rows disposition (fun x => x = .external)).length ∧
    split.localBinding = (bucket rows disposition (fun x => x = .localBinding)).length ∧
    split.nonCodeAsset = (bucket rows disposition (fun x => x = .nonCodeAsset)).length
  architecture : ∃ items, architectureItems rows' = .ok items ∧
    (items.filter RiDiagnostic.unresolved).Perm (bucket rows disposition InRepo)
  review : ∀ d ∈ rows.diagnostics, d.unresolved = true → ∃ decision,
    promoted (evidenceByFact rows' (ruled rows')) (reviewContext rows') d = .ok decision ∧
      (decision.isSome = true ↔ disposition d = .gap ∧ Supported rows d)

variable {ctx : Context} {ds : List RiDiagnostic}

theorem splitUnresolved_eq (h : ∀ d ∈ ds, dispositionOf ctx d = .ok (disposition d)) :
    splitUnresolved ctx ds
      = .ok (ds.foldl (fun split d => split.count (disposition d)) Split.empty) := by
  unfold splitUnresolved
  generalize Split.empty = split
  induction ds generalizing split with
  | nil => rfl
  | cons d ds ih =>
    rw [foldlM_cons, h d mem_cons_self]
    exact ih (fun d' hd' => h d' (mem_cons_of_mem d hd')) _

theorem relevantItems_eq
    (h : ∀ d ∈ ds, d.unresolved = true → dispositionOf ctx d = .ok (disposition d)) :
    relevantItems ctx ds = .ok (ds.filter (fun d =>
      if d.unresolved then InRepo (disposition d)
      else architectureDiagnosticCodes.elem d.code)) := by
  induction ds with
  | nil => rfl
  | cons d ds ih =>
    have hrelevant : isArchitectureRelevant ctx d = .ok (if d.unresolved
        then InRepo (disposition d) else architectureDiagnosticCodes.elem d.code) := by
      unfold isArchitectureRelevant
      by_cases hd : d.unresolved = true
      · have hcode : architectureDiagnosticCodes.elem d.code = true := by
          rw [of_decide_eq_true hd]
          decide
        rw [hcode, hd, h d mem_cons_self hd]
        cases disposition d with
        | _ => rfl
      · rw [Bool.not_eq_true] at hd
        rw [hd]
        cases architectureDiagnosticCodes.elem d.code with
        | _ => rfl
    rw [relevantItems, hrelevant, ih (fun d' hd' => h d' (mem_cons_of_mem d hd')),
      filter_cons]
    rfl

omit [Unicode] [Interpreter] in
theorem factOf_perm (s : Sealed) (hr : Reordered s.rows rows') {ds' : List RiDiagnostic}
    (hd : ds.Perm ds') : factOf rows' ds' = factOf s.rows ds := by
  funext e
  unfold factOf
  cases e.parent with
  | edge ref => rfl
  | observation ref =>
    dsimp only
    rw [← Rows.find?_perm s.observationPks hr.observations ref]
    simp only [elem_eq_of_perm (hd.filterMap _)]
  | node ref =>
    have helem : ∀ key, (ds.flatMap (fun d => [d.subjectKey, d.objectKey, fileKey d.path])).elem
        key = (ds'.flatMap (fun d => [d.subjectKey, d.objectKey, fileKey d.path])).elem key := by
      intro key
      rw [Bool.eq_iff_iff, elem_iff, elem_iff, (hd.flatMap_right _).mem_iff]
    dsimp only
    rw [← Rows.find?_perm s.nodeIds hr.nodes ref]
    simp only [helem]

omit [Unicode] [Interpreter] in
theorem supported_reordered (s : Sealed) (hr : Reordered s.rows rows') (d : RiDiagnostic) :
    Supported rows' d ↔ Supported s.rows d := by
  have hruled : (ruled s.rows).Perm (ruled rows') := hr.diagnostics.filter _
  unfold Supported
  rw [factOf_perm s hr hruled]
  simp only [hr.evidence.mem_iff]

theorem promoted_unresolved (byFact : Str → List RiEvidence) {d : RiDiagnostic}
    (hd : d.unresolved = true) (h : dispositionOf ctx d = .ok (disposition d)) :
    ∃ decision, promoted byFact ctx d = .ok decision ∧
      (decision.isSome = true ↔ disposition d = .gap ∧ (supportFor d byFact).isSome = true) := by
  have hrule : (ruleOf d.code).isSome = true := by
    rw [of_decide_eq_true hd]
    decide
  rcases Option.isSome_iff_exists.mp hrule with ⟨rule, hrule⟩
  unfold promoted
  rw [hrule]
  cases supportFor d byFact with
  | none => exact ⟨none, rfl, fun h => (by cases h), fun h => (by cases h.2)⟩
  | some supported =>
    dsimp only
    rw [isExpectedUnresolved, hd, h]
    refine ⟨_, rfl, ?_⟩
    cases disposition d with
    | gap => exact ⟨fun _ => ⟨rfl, rfl⟩, fun _ => rfl⟩
    | _ => exact ⟨fun h => (by cases h), fun h => (by cases h.1)⟩

/-- Readers of one order, when its judgements are known. -/
theorem shared_of_same (s : Sealed) (hr : Reordered s.rows rows')
    (h : ∀ d ∈ s.rows.diagnostics, d.unresolved = true →
      dispositionOf (loadContext rows') d = .ok (disposition d)) :
    Shared s.rows disposition rows' := by
  have h' : ∀ d ∈ rows'.diagnostics, d.unresolved = true →
      dispositionOf (loadContext rows') d = .ok (disposition d) :=
    fun d hd => h d (hr.diagnostics.mem_iff.mpr hd)
  have hbucket : ∀ p, (bucket rows' disposition p).length = (bucket s.rows disposition p).length :=
    fun p => ((hr.diagnostics.filter _).length_eq).symm
  refine ⟨h, ?_, ?_, ?_⟩
  · have hsplit : insightsSplit rows' = .ok ((rows'.diagnostics.filter
        RiDiagnostic.unresolved).foldl
        (fun split d => split.count (disposition d)) Split.empty) := by
      unfold insightsSplit
      by_cases hnil : rows'.diagnostics.filter RiDiagnostic.unresolved = []
      · rw [hnil]
        rfl
      · rw [if_neg hnil]
        refine splitUnresolved_eq (fun d hd => ?_)
        rw [mem_filter] at hd
        exact h' d hd.1 hd.2
    rcases Split.foldl_count disposition (rows'.diagnostics.filter RiDiagnostic.unresolved)
      Split.empty with ⟨hgap, hexternal, hlocal, hasset, htotal⟩
    -- Every number of the split is the length of a bucket.
    have hcount : ∀ p : Disposition → Bool, (rows'.diagnostics.filter
        RiDiagnostic.unresolved).countP (fun d => p (disposition d))
        = (bucket s.rows disposition p).length := by
      intro p
      rw [← hbucket, bucket, countP_eq_length_filter, filter_filter]
      congr 2
      funext d
      exact Bool.and_comm _ _
    refine ⟨_, hsplit, ?_, ?_, ?_, ?_, ?_⟩
    · rw [htotal, ← countP_eq_length_filter, ← hr.diagnostics.countP_eq]
      exact Nat.zero_add _
    · rw [hgap, hcount InRepo]
      exact Nat.zero_add _
    · rw [hexternal, hcount (fun x => x = .external)]
      exact Nat.zero_add _
    · rw [hlocal, hcount (fun x => x = .localBinding)]
      exact Nat.zero_add _
    · rw [hasset, hcount (fun x => x = .nonCodeAsset)]
      exact Nat.zero_add _
  · refine ⟨_, relevantItems_eq (fun d hd => h' d (mem_of_mem_filter hd)), ?_⟩
    rw [filter_filter, filter_filter]
    -- The page drops the codes that a fact of the architecture reports as well.
    have hfilter : rows'.diagnostics.filter (fun d => (d.unresolved &&
        if d.unresolved then InRepo (disposition d) else architectureDiagnosticCodes.elem d.code) &&
          architectureFactDiagnosticCodes.elem d.code) = bucket rows' disposition InRepo := by
      refine filter_congr (fun d _ => ?_)
      cases hd : d.unresolved with
      | false => rfl
      | true =>
        have hcode : architectureFactDiagnosticCodes.elem d.code = true := by
          rw [of_decide_eq_true hd]
          decide
        rw [hcode]
        simp
    simp only [Bool.and_assoc] at hfilter ⊢
    rw [hfilter]
    exact (hr.diagnostics.filter _).symm
  · intro d hd hunresolved
    -- The review loads the context, since there is an unresolved diagnostic.
    have hcontext : reviewContext rows' = loadContext rows' := by
      unfold reviewContext
      rw [if_pos]
      refine any_eq_true.mpr ⟨d, mem_filter.mpr ⟨hr.diagnostics.mem_iff.mp hd, ?_⟩,
        hunresolved⟩
      rw [of_decide_eq_true hunresolved]
      decide
    rcases promoted_unresolved (evidenceByFact rows' (ruled rows')) hunresolved
      (h d hd hunresolved) with ⟨decision, hdecision, hiff⟩
    refine ⟨decision, hcontext ▸ hdecision, ?_⟩
    rw [hiff, supportFor_isSome_iff, supported_reordered s hr]

/-- The readers of a snapshot share one judgement of its unresolved references,
    whatever orders they read it in, exactly if every one is unambiguous. -/
theorem dispositions_shared (s : Sealed) :
    (∃ disposition, ∀ rows', Reordered s.rows rows' → Shared s.rows disposition rows') ↔
      ∀ d ∈ s.rows.diagnostics, d.unresolved = true → Unambiguous s.rows d := by
  constructor
  · rintro ⟨disposition, hall⟩ d hd hunresolved
    exact (unambiguous_iff s d).mp
      ⟨disposition d, fun rows' hr => (hall rows' hr).same d hd hunresolved⟩
  · intro hall
    -- A judgement for each reference, taken together as one function.
    have hone : ∀ d, ∃ disposition, d ∈ s.rows.diagnostics → d.unresolved = true →
        ∀ rows', Reordered s.rows rows' →
          dispositionOf (loadContext rows') d = .ok disposition := by
      intro d
      by_cases hd : d ∈ s.rows.diagnostics ∧ d.unresolved = true
      · rcases (unambiguous_iff s d).mpr (hall d hd.1 hd.2) with ⟨disposition, h⟩
        exact ⟨disposition, fun _ _ => h⟩
      · exact ⟨.gap, fun h h' => absurd ⟨h, h'⟩ hd⟩
    choose disposition h using hone
    exact ⟨disposition, fun rows' hr =>
      shared_of_same s hr (fun d hd hunresolved => h d hd hunresolved rows' hr)⟩

end Readers

section Samples

local instance sharedUnicode : Unicode := asciiText
local instance sharedInterpreter : Interpreter := cpython

/-- A call of a name that its file imports from two modules, one of them in the
    standard library. -/
def twoBindings : Sealed :=
  { rows :=
      { nodes := []
        observations :=
          [{ id := 1
             observationId := "call".toList
             observedKind := "call".toList
             referentText := some "loads".toList },
           { id := 2
             observationId := "first".toList
             observedKind := importBinding
             referentText := some "json|loads|loads".toList },
           { id := 3
             observationId := "second".toList
             observedKind := importBinding
             referentText := some "fallback|loads|loads".toList }]
        evidence :=
          [{ id := 1
             parent := .observation 2
             path := "m.py".toList
             startLine := 2
             endLine := 2
             granularity := .span
             extractor := "python".toList
             extractorVersion := "1".toList },
           { id := 2
             parent := .observation 3
             path := "m.py".toList
             startLine := 4
             endLine := 4
             granularity := .span
             extractor := "python".toList
             extractorVersion := "1".toList }]
        diagnostics :=
          [{ id := 1
             code := riResUnresolved
             severity := .warning
             message := "calls target is unresolved".toList
             path := some "m.py".toList
             spanStartLine := some 6
             spanEndLine := some 6
             producer := "resolver@1".toList
             subjectKey := none
             objectKey := none
             observationId := some "call".toList }] }
    nodeIds := List.nodup_nil
    observationPks := by decide
    observationIds := by decide }

/-- Two orders of the evidence rows judge the same call differently. -/
theorem dispositions_disagree :
    ¬ ∃ disposition, ∀ rows', Reordered twoBindings.rows rows' →
      Shared twoBindings.rows disposition rows' := by
  rintro ⟨disposition, hall⟩
  have hsame := fun rows' hr => (hall rows' hr).same _ (mem_singleton.mpr rfl) rfl
  have hfirst := hsame twoBindings.rows (Reordered.refl _)
  have hsecond := hsame
    { twoBindings.rows with evidence := twoBindings.rows.evidence.reverse }
    ⟨.refl _, .refl _, (reverse_perm _).symm, .refl _⟩
  rw [← hsecond] at hfirst
  revert hfirst
  decide +kernel

end Samples

end Review

end Partha
