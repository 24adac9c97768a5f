import Partha.Extraction.PythonCalls
import Partha.Resolution.Soundness

/-!
# Shadowed Calls

A call of a name that a local binding shadows is not resolved. The extractor
marks it with a second observation, and the resolver pairs the two again, by the
subject, the text, the place and the ordinal.

The ordinals do not pair them. The calls of one name on one pair of lines are
numbered among themselves, and so are the marks, so the marks fall on the first
calls of the group, as many as there are. They are the shadowed ones exactly if
these come first in the walk. `g() + (lambda g: g())(1)` has its shadowed call
second: the first call is suppressed, and the second becomes an edge to a global
that it never calls.

## Main definitions

* `withFile`: The rows of a snapshot with those of a file.
* `Apart`: The other rows belong to other files.
* `CallsFaithful`: Shadowed calls have no edge, and others are not suppressed.
* `ShadowedFirst`: Among calls that are alike the shadowed ones come first.

## Theorems

* `inputs_withFile`: The inputs of a file.
* `calls_faithful`: So they do if the shadowed calls come first.
* `calls_swapped`: A file in which they do not.
-/

namespace Partha

namespace Resolution

open Canonical Extraction SortKeys List

section Counting

/-- Among calls of one name on one pair of lines, the shadowed ones come first. -/
def ShadowedFirst (sites : List CallSite) : Prop :=
  sites.Pairwise (fun c c' => c.place = c'.place → c'.shadowed = true → c.shadowed = true)

/-- The calls at a place. -/
def callsAt (place : Str × Nat × Nat) (sites : List CallSite) : Nat :=
  sites.countP (fun c => c.place = place)

/-- The shadowed calls at a place. -/
def shadowedAt (place : Str × Nat × Nat) (sites : List CallSite) : Nat :=
  sites.countP (fun c => c.place = place && c.shadowed)

theorem shadowedAt_le (place : Str × Nat × Nat) (sites : List CallSite) :
    shadowedAt place sites ≤ callsAt place sites := by
  refine countP_mono_left (fun c _ h => ?_)
  rw [Bool.and_eq_true] at h
  exact h.1

variable {place : Str × Nat × Nat} {sites : List CallSite} {c : CallSite}

/-- Calls that are all shadowed. -/
theorem shadowedAt_eq (h : ∀ c ∈ sites, c.place = place → c.shadowed = true) :
    shadowedAt place sites = callsAt place sites := by
  refine countP_congr (fun c hc => ?_)
  rw [Bool.and_eq_true, decide_eq_true_eq]
  exact ⟨And.left, fun hp => ⟨hp, h c hc hp⟩⟩

theorem shadowedAt_split (c : CallSite) (earlier later : List CallSite) :
    shadowedAt c.place (earlier ++ c :: later) = shadowedAt c.place earlier +
      shadowedAt c.place later + (if c.shadowed then 1 else 0) := by
  unfold shadowedAt
  rw [countP_append, countP_cons]
  simp only [decide_true, Bool.true_and]
  omega

theorem shadowedAt_pos (hc : c ∈ sites) (hplace : c.place = place) (hs : c.shadowed = true) :
    0 < shadowedAt place sites := by
  refine countP_pos_iff.mpr ⟨c, hc, ?_⟩
  rw [Bool.and_eq_true, decide_eq_true_eq]
  exact ⟨hplace, hs⟩

/-- If the shadowed calls come first, the marks of a place reach as far as they do. -/
theorem marked_iff {earlier later : List CallSite} (h : ShadowedFirst sites)
    (hsplit : sites = earlier ++ c :: later) :
    callsAt c.place earlier + 1 ≤ shadowedAt c.place sites ↔ c.shadowed = true := by
  subst hsplit
  rcases pairwise_append.mp h with ⟨_, hlater, hacross⟩
  have hle := shadowedAt_le c.place earlier
  rw [shadowedAt_split]
  by_cases hs : c.shadowed = true
  · have hall : shadowedAt c.place earlier = callsAt c.place earlier :=
      shadowedAt_eq (fun c' hc' hp => hacross c' hc' c mem_cons_self hp hs)
    simp only [hs, if_true, iff_true]
    omega
  · -- No call after an unshadowed one is shadowed.
    have hnone : shadowedAt c.place later = 0 := by
      refine Nat.eq_zero_of_not_pos (fun hpos => ?_)
      rcases countP_pos_iff.mp hpos with ⟨c', hc', hmark⟩
      rw [Bool.and_eq_true, decide_eq_true_eq] at hmark
      exact hs ((pairwise_cons.mp hlater).1 c' hc' hmark.1.symm hmark.2)
    simp only [hs, hnone, Bool.false_eq_true, if_false, iff_false]
    omega

/-- The marks do not fall on an unshadowed call only if the shadowed ones come
    first. -/
theorem shadowedFirst_of_unmarked
    (h : ∀ earlier c later, sites = earlier ++ c :: later → c.shadowed = false →
      shadowedAt c.place sites ≤ callsAt c.place earlier) : ShadowedFirst sites := by
  -- An unshadowed call is never followed by a shadowed one of its place: by
  -- induction on what comes before it, there would be an earlier such call.
  have hearlier : ∀ n earlier c later, earlier.length = n → sites = earlier ++ c :: later →
      c.shadowed = false → ∀ c' ∈ later, c.place = c'.place → c'.shadowed = false := by
    intro n
    induction n using Nat.strong_induction_on with
    | _ n ih =>
      intro earlier c later hlength hsplit hs c' hc' hplace
      by_contra hs'
      rw [Bool.not_eq_false] at hs'
      have hall : ∀ d ∈ earlier, d.place = c.place → d.shadowed = true := by
        intro d hd hdplace
        by_contra hds
        rw [Bool.not_eq_true] at hds
        rcases append_of_mem hd with ⟨first, between, hd'⟩
        have hshort : first.length < n := by
          rw [← hlength, hd', length_append, length_cons]
          omega
        have hsplit' : sites = first ++ d :: (between ++ c :: later) := by
          rw [hsplit, hd']
          simp
        have hmem : c' ∈ between ++ c :: later :=
          mem_append_right _ (mem_cons_of_mem _ hc')
        have hnot := ih first.length hshort first d _ rfl hsplit' hds c' hmem
          (hdplace.trans hplace)
        rw [hs'] at hnot
        cases hnot
      have hle := h earlier c later hsplit hs
      have hpos := shadowedAt_pos hc' hplace.symm hs'
      have heq := shadowedAt_eq hall
      rw [hsplit, shadowedAt_split] at hle
      omega
  unfold ShadowedFirst
  rw [pairwise_iff_forall_sublist]
  intro c c' hsub hplace hs'
  by_contra hs
  rw [Bool.not_eq_true] at hs
  rcases cons_sublist_iff.mp hsub with ⟨first, rest, hsites, hc, hrest⟩
  rcases append_of_mem hc with ⟨earlier, between, hfirst⟩
  have hsplit : sites = earlier ++ c :: (between ++ rest) := by
    rw [hsites, hfirst]
    simp
  have hmem : c' ∈ between ++ rest :=
    mem_append_right _ (hrest.subset (mem_singleton_self c'))
  have hnot := hearlier _ earlier c _ rfl hsplit hs c' hmem hplace
  rw [hs'] at hnot
  cases hnot

end Counting

section Numbering

variable (moduleKey path : Str)

/-- The identity of a kind of observation of a call. -/
def siteIdentity (kind : Str) (c : CallSite) : Identity :=
  (c.observation moduleKey path kind c.name).identity

variable {moduleKey path}

variable {kind : Str}

theorem siteIdentity_inj {kind' : Str} {c c' : CallSite} :
    siteIdentity moduleKey path kind c = siteIdentity moduleKey path kind' c' ↔
      kind = kind' ∧ c.place = c'.place := by
  simp [siteIdentity, ExtractedObservation.identity, CallSite.observation, CallSite.place]

/-- The identities of the observations of one call. -/
theorem identities_site (c : CallSite) :
    (c.observations moduleKey path).map ExtractedObservation.identity =
      siteIdentity moduleKey path callKind c ::
        (if c.shadowed then [siteIdentity moduleKey path callShadowedKind c] else []) ++
        c.injected.map (fun name => (c.observation moduleKey path injectsKind name).identity) := by
  unfold CallSite.observations siteIdentity
  rw [map_append, map_cons, map_map]
  cases c.shadowed with
  | true => rfl
  | false => rfl

theorem count_injected (kind : Str) (hkind : kind ≠ injectsKind) (c c' : CallSite) :
    (c.injected.map (fun name => (c.observation moduleKey path injectsKind name).identity)).count
      (siteIdentity moduleKey path kind c') = 0 := by
  rw [count_eq_zero, mem_map]
  rintro ⟨name, _, hidentity⟩
  exact hkind (congrArg Identity.observedKind hidentity).symm

/-- The call observations of a place are its calls. -/
theorem count_calls (c : CallSite) (sites : List CallSite) :
    ((sites.flatMap (CallSite.observations moduleKey path)).map ExtractedObservation.identity).count
      (siteIdentity moduleKey path callKind c) = callsAt c.place sites := by
  induction sites with
  | nil => rfl
  | cons c' sites ih =>
    have hmark : siteIdentity moduleKey path callShadowedKind c' ≠
        siteIdentity moduleKey path callKind c :=
      fun h => absurd (siteIdentity_inj.mp h).1 (by decide)
    have hmarks : (if c'.shadowed then [siteIdentity moduleKey path callShadowedKind c']
        else []).count (siteIdentity moduleKey path callKind c) = 0 := by
      cases c'.shadowed with
      | true => exact count_eq_zero_of_not_mem (fun h => hmark (mem_singleton.mp h).symm)
      | false => rfl
    rw [flatMap_cons, map_append, count_append, ih, identities_site,
      cons_append, count_cons, count_append, hmarks,
      count_injected callKind (by decide)]
    unfold callsAt
    rw [countP_cons]
    by_cases hplace : c'.place = c.place
    · have hsame : siteIdentity moduleKey path callKind c'
          = siteIdentity moduleKey path callKind c := siteIdentity_inj.mpr ⟨rfl, hplace⟩
      simp only [hsame, beq_self_eq_true, hplace, decide_true, if_true]
      omega
    · have hdiffer : siteIdentity moduleKey path callKind c'
          ≠ siteIdentity moduleKey path callKind c := fun h => hplace (siteIdentity_inj.mp h).2
      simp only [beq_eq_false_iff_ne.mpr hdiffer, hplace, decide_false, Bool.false_eq_true,
        if_false]
      omega

/-- The marks of a place are its shadowed calls. -/
theorem count_marks (c : CallSite) (sites : List CallSite) :
    ((sites.flatMap (CallSite.observations moduleKey path)).map ExtractedObservation.identity).count
      (siteIdentity moduleKey path callShadowedKind c) = shadowedAt c.place sites := by
  induction sites with
  | nil => rfl
  | cons c' sites ih =>
    have hcall : siteIdentity moduleKey path callKind c' ≠
        siteIdentity moduleKey path callShadowedKind c :=
      fun h => absurd (siteIdentity_inj.mp h).1 (by decide)
    have hmarks : (if c'.shadowed then [siteIdentity moduleKey path callShadowedKind c']
        else []).count (siteIdentity moduleKey path callShadowedKind c)
        = if (c'.place = c.place && c'.shadowed) = true then 1 else 0 := by
      cases c'.shadowed with
      | false => simp only [Bool.false_eq_true, if_false, count_nil, Bool.and_false]
      | true =>
        simp [count_singleton, siteIdentity_inj]
    rw [flatMap_cons, map_append, count_append, ih, identities_site,
      cons_append, count_cons, count_append, hmarks,
      count_injected callShadowedKind (by decide), beq_eq_false_iff_ne.mpr hcall]
    unfold shadowedAt
    rw [countP_cons]
    simp only [Bool.false_eq_true, if_false]
    omega

/-- Observations of other kinds are not counted with those of a call. -/
theorem count_other {others : List ExtractedObservation} (h : ∀ o ∈ others, o.observedKind ≠ kind)
    (c : CallSite) :
    (others.map ExtractedObservation.identity).count (siteIdentity moduleKey path kind c) = 0 := by
  rw [count_eq_zero, mem_map]
  rintro ⟨o, ho, hidentity⟩
  exact h o ho (congrArg Identity.observedKind hidentity)

end Numbering

section Files

/-- The row of an observation under its primary key. -/
def observationRow (observationId : ExtractedObservation → Str) (id : Nat)
    (o : ExtractedObservation) : Observation :=
  { id := id
    observationId := observationId o
    observedKind := o.observedKind
    subjectKey := o.subjectKey
    referentText := o.referentText
    ordinal := o.ordinal }

/-- The row of its evidence. -/
def evidenceRow (lineCount id : Nat) (o : ExtractedObservation) : Evidence :=
  { parent := .observation id
    path := o.path
    startLine := o.startLine
    endLine := o.endLine
    logicalLineCount := lineCount
    granularity := .span
    extractor := "python-ast".toList
    extractorVersion := "1.1.0".toList }

/-- The rows of a snapshot with those of the observations of a file, whose primary
    keys go on from `first`. -/
def withFile (others : Tables) (observationId : ExtractedObservation → Str)
    (first lineCount : Nat) (observations : List ExtractedObservation) : Tables :=
  { others with
    observations := others.observations ++
      (observations.zipIdx first).map (fun p => observationRow observationId p.2 p.1)
    evidence := others.evidence ++
      (observations.zipIdx first).map (fun p => evidenceRow lineCount p.2 p.1) }

/-- The other rows have primary keys of their own, and their observations are of
    other files. -/
structure Apart (others : Tables) (path : Str) (first count : Nat) : Prop where
  observations : ∀ o ∈ others.observations, ¬ (first ≤ o.id ∧ o.id < first + count)
  evidence : ∀ e ∈ others.evidence, ∀ id, e.parent = .observation id →
    ¬ (first ≤ id ∧ id < first + count) ∧ e.path ≠ path

variable {others : Tables} {observationId : ExtractedObservation → Str} {path : Str}
  {first lineCount : Nat} {observations : List ExtractedObservation}

variable {o : ExtractedObservation} {id : Nat} {i : Input}

theorem zipIdx_bounds (h : (o, id) ∈ observations.zipIdx first) :
    first ≤ id ∧ id < first + observations.length := by
  rcases mem_zipIdx_iff_le_and_getElem?_sub.mp h with ⟨hle, hget⟩
  rcases List.getElem?_eq_some_iff.mp hget with ⟨hlt, _⟩
  omega

theorem zipIdx_unique {o' : ExtractedObservation} (h : (o, id) ∈ observations.zipIdx first)
    (h' : (o', id) ∈ observations.zipIdx first) : o = o' := by
  have hget := (mem_zipIdx_iff_le_and_getElem?_sub.mp h).2
  rw [(mem_zipIdx_iff_le_and_getElem?_sub.mp h').2] at hget
  exact (Option.some.inj hget).symm

/-- The input of an observation of the file. -/
def inputOf (observationId : ExtractedObservation → Str) (lineCount id : Nat)
    (o : ExtractedObservation) : Input :=
  { observation := observationRow observationId id o, evidence := evidenceRow lineCount id o }

theorem mem_inputs {t : Tables} : i ∈ inputs t ↔ i.observation ∈ t.observations ∧
    (sortBy evidenceKey (t.evidence.filter (fun e =>
      e.parent = .observation i.observation.id))).head? = some i.evidence := by
  unfold inputs
  rw [mem_filterMap]
  simp only [mem_sortBy, Option.map_eq_some_iff]
  constructor
  · rintro ⟨o, ho, e, he, rfl⟩
    exact ⟨ho, he⟩
  · rintro ⟨ho, he⟩
    exact ⟨i.observation, ho, i.evidence, he, rfl⟩

/-- An input of a snapshot with a file is one of the file, or of another path. -/
theorem inputs_withFile (ha : Apart others path first observations.length)
    (hi : i ∈ inputs (withFile others observationId first lineCount observations)) :
    i.evidence.path ≠ path ∨
      ∃ o id, (o, id) ∈ observations.zipIdx first ∧ i = inputOf observationId lineCount id o := by
  rcases mem_inputs.mp hi with ⟨ho, he⟩
  have hmem := mem_sortBy.mp (mem_of_head? he)
  rw [mem_filter, decide_eq_true_eq] at hmem
  rcases hmem with ⟨hevidence, hparent⟩
  rcases mem_append.mp hevidence with hother | hown
  · exact .inl (ha.evidence _ hother _ hparent).2
  · rcases mem_map.mp hown with ⟨⟨o, id⟩, hin, hrow⟩
    have hid : id = i.observation.id := by
      rw [← hrow] at hparent
      exact Parent.observation.inj hparent
    rcases mem_append.mp ho with hother | hown'
    · exact absurd (hid ▸ zipIdx_bounds hin) (ha.observations _ hother)
    · rcases mem_map.mp hown' with ⟨⟨o', id'⟩, hin', hrow'⟩
      have hid' : id' = id := by
        rw [hid, ← hrow']
        rfl
      subst hid'
      have hsame := zipIdx_unique hin' hin
      subst hsame
      exact .inr ⟨o', id', hin', by cases i; simp only at hrow hrow'; rw [← hrow, ← hrow']; rfl⟩

theorem inputOf_mem (ha : Apart others path first observations.length)
    (h : (o, id) ∈ observations.zipIdx first) : inputOf observationId lineCount id o ∈
      inputs (withFile others observationId first lineCount observations) := by
  refine mem_inputs.mpr ⟨mem_append_right _ (mem_map.mpr ⟨(o, id), h, rfl⟩), ?_⟩
  have hrow : evidenceRow lineCount id o ∈
      (withFile others observationId first lineCount observations).evidence :=
    mem_append_right _ (mem_map.mpr ⟨(o, id), h, rfl⟩)
  -- The observation has one evidence row.
  have honly : ∀ e ∈ (withFile others observationId first lineCount observations).evidence,
      e.parent = .observation id → e = evidenceRow lineCount id o := by
    intro e he hparent
    rcases mem_append.mp he with hother | hown
    · exact absurd (zipIdx_bounds h) (ha.evidence e hother id hparent).1
    · rcases mem_map.mp hown with ⟨⟨o', id'⟩, hin, rfl⟩
      have hid : id' = id := Parent.observation.inj hparent
      subst hid
      rw [zipIdx_unique hin h]
  cases hsorted : sortBy evidenceKey
      ((withFile others observationId first lineCount observations).evidence.filter
        (fun e => e.parent = .observation id)) with
  | nil =>
    have hin : evidenceRow lineCount id o ∈ sortBy evidenceKey
        ((withFile others observationId first lineCount observations).evidence.filter
          (fun e => e.parent = .observation id)) :=
      mem_sortBy.mpr (mem_filter.mpr ⟨hrow, decide_eq_true rfl⟩)
    rw [hsorted] at hin
    cases hin
  | cons e rest =>
    have he : e ∈ sortBy evidenceKey
        ((withFile others observationId first lineCount observations).evidence.filter
          (fun e => e.parent = .observation id)) := hsorted ▸ mem_cons_self
    rw [mem_sortBy, mem_filter, decide_eq_true_eq] at he
    rw [honly e he.1 he.2] at hsorted
    exact congrArg List.head? hsorted

end Files

section Pairing

/-- The reference key of an observation of a call. -/
def callKey (moduleKey path : Str) (c : CallSite) (ordinal : Nat) :
    Str × Option Str × Str × Nat × Nat × Nat :=
  (moduleKey, some c.name, path, c.startLine, c.endLine, ordinal)

/-- The observations of a file whose calls are `sites`. The other collectors
    record theirs before and after those of the calls. -/
def fileObservations (moduleKey path : Str) (before after : List ExtractedObservation)
    (sites : List CallSite) : List ExtractedObservation :=
  assignOrdinals []
    (before ++ (sites.flatMap (CallSite.observations moduleKey path) ++ after))

/-- The other collectors record other kinds of observations. -/
def OtherKinds (others : List ExtractedObservation) : Prop :=
  ∀ o ∈ others, o.observedKind ≠ callKind ∧ o.observedKind ≠ callShadowedKind

variable {moduleKey path : Str} {before after : List ExtractedObservation} {sites : List CallSite}

variable {o : ExtractedObservation} {kind : Str}

theorem mem_assignOrdinals_of_mem {seen : List Identity} {observations : List ExtractedObservation}
    (h : o ∈ assignOrdinals seen observations) : ∃ o' ∈ observations, o.identity = o'.identity := by
  induction observations generalizing seen with
  | nil => cases h
  | cons o' observations ih =>
    rcases mem_cons.mp h with rfl | h
    · exact ⟨o', mem_cons_self, rfl⟩
    · rcases ih h with ⟨o'', ho, hidentity⟩
      exact ⟨o'', mem_cons_of_mem _ ho, hidentity⟩

/-- An observation of a call among those of a file. -/
theorem site_of_kind (hb : OtherKinds before) (ha : OtherKinds after)
    (hkind : kind = callKind ∨ kind = callShadowedKind)
    (h : o ∈ fileObservations moduleKey path before after sites) (ho : o.observedKind = kind) :
    ∃ c ∈ sites, o.identity = siteIdentity moduleKey path kind c := by
  rcases mem_assignOrdinals_of_mem h with ⟨o', ho', hidentity⟩
  have hkind' : o'.observedKind = kind := by
    rw [← ho]
    exact (congrArg Identity.observedKind hidentity).symm
  have hnot : ∀ others, OtherKinds others → o' ∉ others := by
    intro others hothers hmem
    rcases hkind with rfl | rfl
    · exact (hothers o' hmem).1 hkind'
    · exact (hothers o' hmem).2 hkind'
  rw [mem_append, mem_append] at ho'
  rcases ho' with hmem | hmem | hmem
  · exact absurd hmem (hnot before hb)
  · rcases mem_flatMap.mp hmem with ⟨c, hc, hobs⟩
    refine ⟨c, hc, ?_⟩
    have hin : o.identity ∈ (c.observations moduleKey path).map ExtractedObservation.identity := by
      rw [hidentity]
      exact mem_map_of_mem hobs
    have hokind : o.identity.observedKind = kind := ho
    rw [identities_site, mem_append, mem_cons, mem_map] at hin
    rcases hin with (hcall | hmark) | ⟨name, _, hinjected⟩
    · rw [hcall] at hokind ⊢
      exact siteIdentity_inj.mpr ⟨hokind, rfl⟩
    · by_cases hs : c.shadowed = true
      · rw [if_pos hs, mem_singleton] at hmark
        rw [hmark] at hokind ⊢
        exact siteIdentity_inj.mpr ⟨hokind, rfl⟩
      · rw [if_neg hs] at hmark
        cases hmark
    · rw [← hinjected] at hokind
      change injectsKind = kind at hokind
      rcases hkind with rfl | rfl
      · exact absurd hokind (by decide)
      · exact absurd hokind (by decide)
  · exact absurd hmem (hnot after ha)

/-- The count of an identity of a call among the observations of a file. -/
theorem count_file (hb : ∀ o ∈ before, o.observedKind ≠ kind)
    (ha : ∀ o ∈ after, o.observedKind ≠ kind) (c : CallSite) :
    ((before ++ (sites.flatMap (CallSite.observations moduleKey path) ++ after)).map
      ExtractedObservation.identity).count (siteIdentity moduleKey path kind c)
      = ((sites.flatMap (CallSite.observations moduleKey path)).map
        ExtractedObservation.identity).count
        (siteIdentity moduleKey path kind c) := by
  rw [map_append, map_append, count_append, count_append, count_other hb,
    count_other ha]
  omega

end Pairing

section Faithfulness

variable [Interpreter] {others : Tables} {observationId : ExtractedObservation → Str}
  {moduleKey path : Str} {first lineCount : Nat} {before after : List ExtractedObservation}
  {sites : List CallSite}

/-- The input of each call, by the key of its observation: a shadowed call has no
    edge, and a call that is not shadowed is not suppressed. -/
def CallsFaithful (t : Tables) (moduleKey path : Str) (sites : List CallSite) : Prop :=
  ∀ earlier c later, sites = earlier ++ c :: later → ∀ i ∈ inputsOf t "call",
    referenceInputKey i = callKey moduleKey path c (callsAt c.place earlier + 1) →
      (c.shadowed = true → ∀ f ∈ factsOf t .call i, f.isEdge = false) ∧
        (c.shadowed = false → referenceInputKey i ∉ shadowedCalls t)

omit [Interpreter] in
/-- The inputs of the calls and marks of a file are those that were counted. -/
theorem input_iff (hb : OtherKinds before) (ha : OtherKinds after)
    (hapart : Apart others path first
      (fileObservations moduleKey path before after sites).length) {kind : String}
    (hkind : kind.toList = callKind ∨ kind.toList = callShadowedKind) (c : CallSite) (n : Nat) :
    (∃ i ∈ inputsOf (withFile others observationId first lineCount
        (fileObservations moduleKey path before after sites)) kind,
      referenceInputKey i = callKey moduleKey path c n) ↔
      0 < n ∧ n ≤ ((sites.flatMap (CallSite.observations moduleKey path)).map
        ExtractedObservation.identity).count (siteIdentity moduleKey path kind.toList c) := by
  have hother : ∀ others, OtherKinds others → ∀ o ∈ others, o.observedKind ≠ kind.toList := by
    intro others hothers o ho
    rcases hkind with h | h
    · rw [h]
      exact (hothers o ho).1
    · rw [h]
      exact (hothers o ho).2
  have hcounted : (∃ o ∈ fileObservations moduleKey path before after sites,
      o.identity = siteIdentity moduleKey path kind.toList c ∧ o.ordinal = n) ↔ _ :=
    mem_assignOrdinals
  rw [count_file (hother before hb) (hother after ha), count_nil, Nat.zero_add] at hcounted
  rw [← hcounted]
  constructor
  -- the key of an input has the path, name, lines and ordinal of the observation it was made of
  · rintro ⟨i, hi, hkey⟩
    rw [inputsOf, mem_filter, decide_eq_true_eq] at hi
    rcases inputs_withFile hapart hi.1 with hpath | ⟨o, id, hin, rfl⟩
    · exact absurd (congrArg (fun key => key.2.2.1) hkey) hpath
    · have ho : o ∈ fileObservations moduleKey path before after sites :=
        fst_mem_of_mem_zipIdx hin
      rcases site_of_kind hb ha hkind ho hi.2 with ⟨c', _, hidentity⟩
      refine ⟨o, ho, ?_, congrArg (fun key => key.2.2.2.2.2) hkey⟩
      rw [hidentity, siteIdentity_inj]
      refine ⟨rfl, ?_⟩
      have hname : o.referentText = some c'.name := congrArg Identity.referentText hidentity
      have hstart : o.startLine = c'.startLine := congrArg Identity.startLine hidentity
      have hend : o.endLine = c'.endLine := congrArg Identity.endLine hidentity
      simp only [referenceInputKey, callKey, inputOf, observationRow, evidenceRow, hname, hstart,
        hend, Prod.mk.injEq, Option.some.injEq] at hkey
      simp only [CallSite.place, Prod.mk.injEq]
      exact ⟨hkey.2.1, hkey.2.2.2.1, hkey.2.2.2.2.1⟩
  -- an observation of the file is found at its index, and its input has the key
  · rintro ⟨o, ho, hidentity, hordinal⟩
    rcases mem_iff_getElem?.mp ho with ⟨k, hk⟩
    have hin : (o, first + k) ∈
        (fileObservations moduleKey path before after sites).zipIdx first := by
      rw [mem_zipIdx_iff_le_and_getElem?_sub]
      exact ⟨Nat.le_add_right first k, by rw [Nat.add_sub_cancel_left]; exact hk⟩
    refine ⟨inputOf observationId lineCount (first + k) o, ?_, ?_⟩
    · rw [inputsOf, mem_filter, decide_eq_true_eq]
      exact ⟨inputOf_mem hapart hin, congrArg Identity.observedKind hidentity⟩
    · have hsubject : o.subjectKey = moduleKey := congrArg Identity.subjectKey hidentity
      have hname : o.referentText = some c.name := congrArg Identity.referentText hidentity
      have hpath : o.path = path := congrArg Identity.path hidentity
      have hstart : o.startLine = c.startLine := congrArg Identity.startLine hidentity
      have hend : o.endLine = c.endLine := congrArg Identity.endLine hidentity
      simp only [referenceInputKey, callKey, inputOf, observationRow, evidenceRow, hsubject, hname,
        hpath, hstart, hend, hordinal]

omit [Interpreter] in
/-- A call is suppressed if the marks of its place reach as far as it. -/
theorem suppressed_iff (hb : OtherKinds before) (ha : OtherKinds after)
    (hapart : Apart others path first
      (fileObservations moduleKey path before after sites).length) (c : CallSite) (n : Nat) :
    callKey moduleKey path c (n + 1) ∈ shadowedCalls (withFile others observationId first lineCount
        (fileObservations moduleKey path before after sites)) ↔
      n + 1 ≤ shadowedAt c.place sites := by
  have hcount : ((sites.flatMap (CallSite.observations moduleKey path)).map
      ExtractedObservation.identity).count (siteIdentity moduleKey path "call_shadowed".toList c)
        = shadowedAt c.place sites := count_marks c sites
  unfold shadowedCalls
  rw [mem_map, input_iff hb ha hapart (.inr rfl) c (n + 1), hcount]
  exact and_iff_right (Nat.succ_pos n)

omit [Interpreter] in
/-- The observation of a call is an input. -/
theorem call_input (hb : OtherKinds before) (ha : OtherKinds after)
    (hapart : Apart others path first
      (fileObservations moduleKey path before after sites).length) {earlier later : List CallSite}
    {c : CallSite} (hsplit : sites = earlier ++ c :: later) :
    ∃ i ∈ inputsOf (withFile others observationId first lineCount
        (fileObservations moduleKey path before after sites)) "call",
      referenceInputKey i = callKey moduleKey path c (callsAt c.place earlier + 1) := by
  have hcount : ((sites.flatMap (CallSite.observations moduleKey path)).map
      ExtractedObservation.identity).count (siteIdentity moduleKey path "call".toList c)
        = callsAt c.place sites := count_calls c sites
  have hplace : callsAt c.place sites = callsAt c.place earlier + (1 + callsAt c.place later) := by
    unfold callsAt
    rw [hsplit, countP_append, countP_cons]
    simp only [decide_true, if_true]
    omega
  rw [input_iff hb ha hapart (.inl rfl) c, hcount, hplace]
  omega

/-- What becomes of the calls of a file depends on their order alone. -/
theorem callsFaithful_iff (hb : OtherKinds before) (ha : OtherKinds after)
    (hapart : Apart others path first
      (fileObservations moduleKey path before after sites).length) :
    CallsFaithful (withFile others observationId first lineCount
        (fileObservations moduleKey path before after sites)) moduleKey path sites ↔
      ShadowedFirst sites := by
  constructor
  · intro h
    refine shadowedFirst_of_unmarked (fun earlier c later hsplit hs => ?_)
    have hinput : ∃ i ∈ inputsOf (withFile others observationId first lineCount
        (fileObservations moduleKey path before after sites)) "call",
        referenceInputKey i = callKey moduleKey path c (callsAt c.place earlier + 1) :=
      call_input hb ha hapart hsplit
    rcases hinput with ⟨i, hi, hkey⟩
    have hnot := (h earlier c later hsplit i hi hkey).2 hs
    rw [hkey, suppressed_iff hb ha hapart] at hnot
    omega
  · intro h earlier c later hsplit i hi hkey
    have hmark := marked_iff h hsplit
    have hsuppressed : callKey moduleKey path c (callsAt c.place earlier + 1) ∈
        shadowedCalls (withFile others observationId first lineCount
          (fileObservations moduleKey path before after sites)) ↔ _ :=
      suppressed_iff hb ha hapart c (callsAt c.place earlier)
    rw [← hsuppressed, ← hkey] at hmark
    constructor
    · intro hs f hf
      change f ∈ resolveCall _ _ i at hf
      rw [resolveCall, if_pos (hmark.mpr hs)] at hf
      rw [mem_singleton.mp hf]
      rfl
    · intro hs hsuppressed
      rw [hmark.mp hsuppressed] at hs
      cases hs

end Faithfulness

section Files

variable [Interpreter]

/-- The observations of a Python file: those of the calls between those of the
    other collectors, with their ordinals. -/
def pythonObservations (moduleKey path : Str) (lineCount : Nat) (body : List Ast)
    (before after : List ExtractedObservation) : List ExtractedObservation :=
  assignOrdinals [] (before ++ (collectCalls moduleKey path lineCount body ++ after))

/-- For every file, whatever else the snapshot has: each call that is recorded is
    an input, and shadowed calls have no edge and others are not suppressed
    exactly if, among calls of one name on one pair of lines, the shadowed ones
    come first. -/
theorem calls_faithful (moduleKey path : Str) (lineCount : Nat) (body : List Ast)
    {before after : List ExtractedObservation} (hb : OtherKinds before) (ha : OtherKinds after)
    (others : Tables) (observationId : ExtractedObservation → Str) (first : Nat)
    (hapart : Apart others path first
      (pythonObservations moduleKey path lineCount body before after).length) :
    (∀ earlier c later, callSites lineCount body = earlier ++ c :: later →
      ∃ i ∈ inputsOf (withFile others observationId first lineCount
          (pythonObservations moduleKey path lineCount body before after)) "call",
        referenceInputKey i = callKey moduleKey path c (callsAt c.place earlier + 1)) ∧
    (CallsFaithful (withFile others observationId first lineCount
        (pythonObservations moduleKey path lineCount body before after)) moduleKey path
        (callSites lineCount body) ↔ ShadowedFirst (callSites lineCount body)) :=
  ⟨fun _ _ _ hsplit => call_input hb ha hapart hsplit, callsFaithful_iff hb ha hapart⟩

end Files

section Samples

local instance shadowedInterpreter : Interpreter := cpython

/-- `g() + (lambda g: g())(1)`, in the second line of a file that defines `g` in
    its first. -/
def shadowedSecond : List Ast :=
  [.functionDef "g".toList [] [] [],
   .other [
    .call 2 2 (.name "g".toList false) [] [],
    .call 2 2 (.lambda [] ["g".toList] (.call 2 2 (.name "g".toList false) [] [])) [.other []] []]]

/-- The nodes of the file. -/
def sampleNodes : Tables :=
  { nodes :=
      [{ id := 1, nodeKind := moduleKind, stableKey := "mod:".toList, name := none,
         defaultExport := false },
       { id := 2, nodeKind := fileKind, stableKey := fileKey "a.py".toList, name := none,
         defaultExport := false },
       { id := 3, nodeKind := symbolKind, stableKey := "a.py::g".toList, name := some "g".toList,
         defaultExport := false }]
    observations := []
    evidence := [] }

/-- A snapshot with the observations of a file, under the digits of their places
    and kinds. -/
def sampleSnapshot (body : List Ast) : Tables :=
  withFile sampleNodes (fun o => o.observedKind ++ Nat.toDigits 10 o.ordinal) 1 2
    (pythonObservations "mod:".toList "a.py".toList 2 body [] [])

theorem apart_sample (first count : Nat) : Apart sampleNodes "a.py".toList first count :=
  ⟨fun _ h => absurd h not_mem_nil, fun _ h => absurd h not_mem_nil⟩

theorem calls_faithful_sample :
    (∀ earlier c later, callSites 2 shadowedSecond = earlier ++ c :: later →
      ∃ i ∈ inputsOf (sampleSnapshot shadowedSecond) "call", referenceInputKey i =
        callKey "mod:".toList "a.py".toList c (callsAt c.place earlier + 1)) ∧
    (CallsFaithful (sampleSnapshot shadowedSecond) "mod:".toList "a.py".toList
      (callSites 2 shadowedSecond) ↔ ShadowedFirst (callSites 2 shadowedSecond)) :=
  calls_faithful "mod:".toList "a.py".toList 2 shadowedSecond
    (fun _ h => absurd h not_mem_nil) (fun _ h => absurd h not_mem_nil) sampleNodes _ 1
    (apart_sample 1 _)

/-- The call of the global is suppressed, and the call of the parameter becomes an
    edge to the global. -/
theorem calls_swapped :
    (callSites 2 shadowedSecond).map (·.shadowed) = [false, true] ∧
      (inputsOf (sampleSnapshot shadowedSecond) "call").map (fun i =>
        (decide (referenceInputKey i ∈ shadowedCalls (sampleSnapshot shadowedSecond)),
          (factsOf (sampleSnapshot shadowedSecond) .call i).any Fact.isEdge))
        = [(true, false), (false, true)] ∧
      ¬ CallsFaithful (sampleSnapshot shadowedSecond) "mod:".toList "a.py".toList
        (callSites 2 shadowedSecond) := by
  refine ⟨by decide +kernel, by decide +kernel, fun h => ?_⟩
  have hfirst : ShadowedFirst (callSites 2 shadowedSecond) :=
    (callsFaithful_iff (fun _ h => absurd h not_mem_nil)
      (fun _ h => absurd h not_mem_nil) (apart_sample 1 _)).mp h
  have hsites : ∃ c c', callSites 2 shadowedSecond = [c, c'] ∧ c.place = c'.place ∧
      c'.shadowed = true ∧ c.shadowed = false := ⟨_, _, rfl, rfl, rfl, rfl⟩
  rcases hsites with ⟨c, c', hsites, hplace, hs', hs⟩
  unfold ShadowedFirst at hfirst
  rw [hsites, pairwise_pair] at hfirst
  rw [hfirst hplace hs'] at hs
  cases hs

end Samples

end Resolution

end Partha
