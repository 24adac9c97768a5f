import Mathlib.Data.List.Pairwise
import Partha.Canonical.Facts

/-!
# Consolidating Edges

Edges with the same subject, predicate and object are one relationship. The
loop enters the first edge of a triple and merges the later ones into it: they
must agree in four fields, and the evidence and the derivations are united.

What the loop computes does not depend on when a triple is merged. `groupedOf`
says what it has after any number of edges: for the first edge of each triple,
that edge with the evidence and the derivations of its whole group. And it
succeeds exactly when the edges of a triple are compatible in pairs.

Compatible is more than agreeing. Evidence that is merged is put into canonical
form a second time, and there a path that has come to look like a drive is
refused. So two edges of a triple must also have stable evidence, which a
single edge need not have.

## Main definitions

* `consolidateEdges`: `_consolidate_edges`.
* `Compatible`: When an edge can be merged with another one of its triple.
* `merged`: An edge with the evidence and the derivations of its group.
* `groupedOf`: What the loop has after the edges of a list.

## Theorems

* `mergeRecord_eq_ok`: What merging two records does.
* `enterRecord_groupedOf`: One edge of the loop.
* `consolidateEdges_eq_ok`: The whole loop.
-/

namespace Partha

namespace Canonical

open Checked List

section Definitions

variable [Unicode]

/-- An edge record with its lists. -/
abbrev EdgeRow := EdgeRecord (List EvidenceRecord) (List DerivedFrom)

def EdgeRecord.triple {E D : Type} (r : EdgeRecord E D) : Str × Str × Str :=
  (r.subjectKey, r.predicate, r.objectKey)

/-- The fields that the edges of one triple must agree in. -/
def requireAgreement (existing record : EdgeRow) : Except CanonicalError Unit :=
  if existing.edgeId ≠ record.edgeId then
    .error (.inconsistentEdge "edge_id" record.subjectKey record.predicate record.objectKey)
  else if existing.truthClass ≠ record.truthClass then
    .error (.inconsistentEdge "truth_class" record.subjectKey record.predicate record.objectKey)
  else if existing.producer ≠ record.producer then
    .error (.inconsistentEdge "producer" record.subjectKey record.predicate record.objectKey)
  else if existing.producerVersion ≠ record.producerVersion then
    .error (.inconsistentEdge "producer_version" record.subjectKey record.predicate
      record.objectKey)
  else .ok ()

/-- The record that a triple already has, with one more edge of it. -/
def mergeRecord (existing record : EdgeRow) : Except CanonicalError EdgeRow := do
  requireAgreement existing record
  let evidence ← orderEvidence
    ((existing.evidence ++ record.evidence).map EvidenceRecord.asMapping)
  let derivedFrom ← sortDerivedFrom
    ((existing.derivedFrom ++ record.derivedFrom).map DerivedFrom.asMapping)
  .ok { existing with evidence := evidence, derivedFrom := derivedFrom }

/-- One edge of the loop: the first of its triple is entered, a later one merged. -/
def enterRecord : List EdgeRow → EdgeRow → Except CanonicalError (List EdgeRow)
  | [], record => .ok [record]
  | existing :: grouped, record =>
    if existing.triple = record.triple then do
      let merged ← mergeRecord existing record
      .ok (merged :: grouped)
    else do
      let grouped ← enterRecord grouped record
      .ok (existing :: grouped)

def groupEdges (schemaVersion : Str) : List EdgeRow → List Edge →
    Except CanonicalError (List EdgeRow)
  | grouped, [] => .ok grouped
  | grouped, edge :: edges => do
    let record ← canonicalEdgeRecord schemaVersion edge
    let grouped ← enterRecord grouped record
    groupEdges schemaVersion grouped edges

/-- `_consolidate_edges`. -/
def consolidateEdges (schemaVersion : Str) (edges : List Edge) :
    Except CanonicalError (List EdgeRow) :=
  groupEdges schemaVersion [] edges

end Definitions

section Lists

/-- A canonical list of evidence, in the order of its ranks. -/
def orderedEvidence (l : List EvidenceRecord) : List EvidenceRecord :=
  Ordering.ordered EvidenceRecord.rank code l

def orderedDerivations (l : List DerivedFrom) : List DerivedFrom :=
  Ordering.ordered DerivedFrom.rank code l

variable {l : List EvidenceRecord}

theorem orderedEvidence_mem {x : EvidenceRecord} : x ∈ orderedEvidence l ↔ x ∈ l :=
  Ordering.mem_ordered code_injective

theorem orderedDerivations_mem {l : List DerivedFrom} {d : DerivedFrom} :
    d ∈ orderedDerivations l ↔ d ∈ l :=
  Ordering.mem_ordered code_injective

theorem orderedEvidence_eq_iff {l' : List EvidenceRecord} :
    orderedEvidence l = orderedEvidence l' ↔ ∀ x, x ∈ l ↔ x ∈ l' :=
  Ordering.ordered_eq_iff code_injective

theorem orderedDerivations_eq_iff {l l' : List DerivedFrom} :
    orderedDerivations l = orderedDerivations l' ↔ ∀ d, d ∈ l ↔ d ∈ l' :=
  Ordering.ordered_eq_iff code_injective

end Lists

section Groups

/-- Two records with the same values in the fields that are compared. -/
structure Agree (q r : EdgeRow) : Prop where
  edgeId : q.edgeId = r.edgeId
  truthClass : q.truthClass = r.truthClass
  producer : q.producer = r.producer
  producerVersion : q.producerVersion = r.producerVersion

/-- The records with the triple of `r`. -/
def group (rs : List EdgeRow) (r : EdgeRow) : List EdgeRow :=
  rs.filter (fun q => q.triple = r.triple)

/-- A record with the evidence and the derivations of its group. -/
def merged (rs : List EdgeRow) (r : EdgeRow) : EdgeRow :=
  { r with
    evidence := orderedEvidence ((group rs r).flatMap (·.evidence))
    derivedFrom := orderedDerivations ((group rs r).flatMap (·.derivedFrom)) }

/-- The records whose triple does not occur before them. -/
def firsts (rs : List EdgeRow) : List EdgeRow :=
  Ordering.distinct EdgeRecord.triple [] rs

/-- What the loop has after these records. -/
def groupedOf (rs : List EdgeRow) : List EdgeRow :=
  (firsts rs).map (merged rs)

theorem firsts_nodup (rs : List EdgeRow) : ((firsts rs).map EdgeRecord.triple).Nodup :=
  Ordering.nodup_distinct_codes EdgeRecord.triple [] rs

variable {rs : List EdgeRow} {a q r : EdgeRow}

theorem mem_of_mem_firsts (h : a ∈ firsts rs) : a ∈ rs :=
  (Ordering.distinct_subset h).1

theorem exists_first (hq : q ∈ rs) : ∃ a ∈ firsts rs, a.triple = q.triple :=
  Ordering.exists_distinct hq not_mem_nil

theorem merged_triple (rs : List EdgeRow) (r : EdgeRow) : (merged rs r).triple = r.triple :=
  rfl

theorem mem_group : q ∈ group rs r ↔ q ∈ rs ∧ q.triple = r.triple := by
  rw [group, mem_filter, decide_eq_true_eq]

theorem mem_merged_evidence {x : EvidenceRecord} :
    x ∈ (merged rs r).evidence ↔ ∃ q ∈ rs, q.triple = r.triple ∧ x ∈ q.evidence := by
  rw [merged, orderedEvidence_mem, mem_flatMap]
  simp only [mem_group, and_assoc]

theorem mem_merged_derivedFrom {d : DerivedFrom} :
    d ∈ (merged rs r).derivedFrom ↔ ∃ q ∈ rs, q.triple = r.triple ∧ d ∈ q.derivedFrom := by
  rw [merged, orderedDerivations_mem, mem_flatMap]
  simp only [mem_group, and_assoc]

/-- Merged records depend on the record and on the set of its group. -/
theorem merged_congr {rs' : List EdgeRow} (h : ∀ q, q.triple = r.triple → (q ∈ rs ↔ q ∈ rs')) :
    merged rs r = merged rs' r := by
  unfold merged
  congr 1
  · rw [orderedEvidence_eq_iff]
    intro x
    simp only [mem_flatMap, mem_group, and_assoc]
    constructor
    · rintro ⟨q, hq, ht, hx⟩
      exact ⟨q, (h q ht).mp hq, ht, hx⟩
    · rintro ⟨q, hq, ht, hx⟩
      exact ⟨q, (h q ht).mpr hq, ht, hx⟩
  · rw [orderedDerivations_eq_iff]
    intro d
    simp only [mem_flatMap, mem_group, and_assoc]
    constructor
    · rintro ⟨q, hq, ht, hd⟩
      exact ⟨q, (h q ht).mp hq, ht, hd⟩
    · rintro ⟨q, hq, ht, hd⟩
      exact ⟨q, (h q ht).mpr hq, ht, hd⟩

theorem Agree.symm (h : Agree q r) : Agree r q :=
  ⟨h.edgeId.symm, h.truthClass.symm, h.producer.symm, h.producerVersion.symm⟩

theorem Agree.trans {t : EdgeRow} (h : Agree q r) (h' : Agree r t) : Agree q t :=
  ⟨h.edgeId.trans h'.edgeId, h.truthClass.trans h'.truthClass, h.producer.trans h'.producer,
    h.producerVersion.trans h'.producerVersion⟩

theorem requireAgreement_eq_ok : requireAgreement q r = .ok () ↔ Agree q r := by
  unfold requireAgreement
  by_cases h₁ : q.edgeId = r.edgeId
  · rw [if_neg (not_not.mpr h₁)]
    by_cases h₂ : q.truthClass = r.truthClass
    · rw [if_neg (not_not.mpr h₂)]
      by_cases h₃ : q.producer = r.producer
      · rw [if_neg (not_not.mpr h₃)]
        by_cases h₄ : q.producerVersion = r.producerVersion
        · rw [if_neg (not_not.mpr h₄)]
          exact ⟨fun _ => ⟨h₁, h₂, h₃, h₄⟩, fun _ => rfl⟩
        · rw [if_pos h₄]
          exact ⟨fun h => (by cases h), fun h => absurd h.producerVersion h₄⟩
      · rw [if_pos h₃]
        exact ⟨fun h => (by cases h), fun h => absurd h.producer h₃⟩
    · rw [if_pos h₂]
      exact ⟨fun h => (by cases h), fun h => absurd h.truthClass h₂⟩
  · rw [if_pos h₁]
    exact ⟨fun h => (by cases h), fun h => absurd h.edgeId h₁⟩

/-- One more edge adds its evidence to what its triple has. -/
theorem merged_concat_evidence (hat : a.triple = r.triple) :
    orderedEvidence ((merged rs a).evidence ++ r.evidence) = (merged (rs ++ [r]) a).evidence := by
  refine orderedEvidence_eq_iff.mpr (fun y => ?_)
  rw [mem_append, mem_merged_evidence, mem_flatMap]
  simp only [mem_group, mem_append, mem_singleton]
  constructor
  · rintro (⟨q, hq, hqt, hy⟩ | hy)
    · exact ⟨q, ⟨.inl hq, hqt⟩, hy⟩
    · exact ⟨r, ⟨.inr rfl, hat.symm⟩, hy⟩
  · rintro ⟨q, ⟨hq | rfl, hqt⟩, hy⟩
    · exact .inl ⟨q, hq, hqt, hy⟩
    · exact .inr hy

theorem merged_concat_derivedFrom (hat : a.triple = r.triple) :
    orderedDerivations ((merged rs a).derivedFrom ++ r.derivedFrom) =
      (merged (rs ++ [r]) a).derivedFrom := by
  refine orderedDerivations_eq_iff.mpr (fun y => ?_)
  rw [mem_append, mem_merged_derivedFrom, mem_flatMap]
  simp only [mem_group, mem_append, mem_singleton]
  constructor
  · rintro (⟨q, hq, hqt, hy⟩ | hy)
    · exact ⟨q, ⟨.inl hq, hqt⟩, hy⟩
    · exact ⟨r, ⟨.inr rfl, hat.symm⟩, hy⟩
  · rintro ⟨q, ⟨hq | rfl, hqt⟩, hy⟩
    · exact .inl ⟨q, hq, hqt, hy⟩
    · exact .inr hy

end Groups

section Merging

variable [Unicode]

/-- Evidence that a mapping was made canonical to. -/
def IsEvidence (x : EvidenceRecord) : Prop :=
  ∃ e, prepareEvidence e = .ok x

/-- A derivation that a mapping was made canonical to. -/
def IsReference (d : DerivedFrom) : Prop :=
  ∃ r, prepareReference r = .ok d

/-- An edge record as `canonical_edge_record` makes it. -/
structure Made (r : EdgeRow) : Prop where
  evidence : ∀ x ∈ r.evidence, IsEvidence x
  derivedFrom : ∀ d ∈ r.derivedFrom, IsReference d
  orderedEvidence : orderedEvidence r.evidence = r.evidence
  orderedDerivations : orderedDerivations r.derivedFrom = r.derivedFrom

/-- Evidence whose paths are still repository paths when they are read again. -/
def Stable (r : EdgeRow) : Prop :=
  ∀ x ∈ r.evidence, driveLike x.path = false

/-- Two records that can be merged if they have the same triple. -/
structure Compatible (q r : EdgeRow) : Prop where
  agree : Agree q r
  left : Stable q
  right : Stable r

variable {r : EdgeRow}

theorem canonicalEdgeRecord_made {schemaVersion : Str} {e : Edge}
    (h : canonicalEdgeRecord schemaVersion e = .ok r) : Made r := by
  rcases bind_eq_ok.mp h with ⟨evidence, hevidence, h⟩
  rcases bind_eq_ok.mp h with ⟨derivedFrom, hderived, h⟩
  rw [orderEvidence_eq_ok] at hevidence
  cases h
  constructor
  · intro x hx
    rcases (mem_arrange hevidence).mp hx with ⟨e, _, he⟩
    exact ⟨e, he⟩
  · intro d hd
    rcases (mem_arrange hderived).mp hd with ⟨r, _, hr⟩
    exact ⟨r, hr⟩
  · rcases arrange_eq_ok.mp hevidence with ⟨prepared, _, rfl⟩
    exact Ordering.ordered_ordered code_injective prepared
  · rcases arrange_eq_ok.mp hderived with ⟨prepared, _, rfl⟩
    exact Ordering.ordered_ordered code_injective prepared

/-- Canonical evidence is put into canonical form once more. -/
theorem orderEvidence_again {l m : List EvidenceRecord} (hl : ∀ x ∈ l, IsEvidence x) :
    orderEvidence (l.map EvidenceRecord.asMapping) = .ok m ↔
      (∀ x ∈ l, driveLike x.path = false) ∧ m = orderedEvidence l := by
  have hself : ∀ x ∈ l, (prepareEvidence x.asMapping = .ok x ↔ driveLike x.path = false) := by
    intro x hx
    rcases hl x hx with ⟨e, he⟩
    exact prepareEvidence_again he
  have hok : ∀ x ∈ l, ∀ y, prepareEvidence x.asMapping = .ok y → driveLike x.path = false := by
    intro x hx y hy
    rcases hl x hx with ⟨e, he⟩
    rcases prepareEvidence_eq_ok.mp he with ⟨path, hpath, _, rfl⟩
    rcases prepareEvidence_eq_ok.mp hy with ⟨path', hpath', _⟩
    by_cases hd : driveLike path = true
    · have hagain := normalizeRepoPath_again hpath
      rw [if_pos hd] at hagain
      exact absurd (hagain.symm.trans hpath') (by intro e; cases e)
    · exact Bool.eq_false_iff.mpr hd
  rw [orderEvidence_eq_ok, arrange_eq_ok]
  constructor
  · rintro ⟨prepared, hp, rfl⟩
    have hstable : ∀ x ∈ l, driveLike x.path = false := by
      intro x hx
      rcases (collect_ok_iff.mp ⟨prepared, hp⟩) x.asMapping (mem_map_of_mem hx) with ⟨y, hy⟩
      exact hok x hx y hy
    have hprepared : collect prepareEvidence (l.map EvidenceRecord.asMapping) = .ok l := by
      refine collect_eq_ok.mpr (List.forall₂_map_left_iff.mpr (List.forall₂_same.mpr ?_))
      exact fun x hx => (hself x hx).mpr (hstable x hx)
    rw [hprepared] at hp
    exact ⟨hstable, by rw [← Except.ok.inj hp]; rfl⟩
  · rintro ⟨hstable, rfl⟩
    refine ⟨l, collect_eq_ok.mpr (List.forall₂_map_left_iff.mpr (List.forall₂_same.mpr ?_)), rfl⟩
    exact fun x hx => (hself x hx).mpr (hstable x hx)

theorem sortDerivedFrom_again {l : List DerivedFrom} (hl : ∀ d ∈ l, IsReference d) :
    sortDerivedFrom (l.map DerivedFrom.asMapping) = .ok (orderedDerivations l) := by
  refine arrange_eq_ok.mpr ⟨l, ?_, rfl⟩
  refine collect_eq_ok.mpr (List.forall₂_map_left_iff.mpr (List.forall₂_same.mpr ?_))
  intro d hd
  rcases hl d hd with ⟨r, hr⟩
  rcases prepareReference_eq_ok hr with ⟨hnfc, hne⟩
  exact prepareReference_asMapping hnfc hne

/-- Two records are merged exactly when they agree and have stable evidence. -/
theorem mergeRecord_eq_ok {q m : EdgeRow} (hq : ∀ x ∈ q.evidence, IsEvidence x)
    (hq' : ∀ d ∈ q.derivedFrom, IsReference d) (hr : ∀ x ∈ r.evidence, IsEvidence x)
    (hr' : ∀ d ∈ r.derivedFrom, IsReference d) :
    mergeRecord q r = .ok m ↔ Compatible q r ∧ m = { q with
      evidence := orderedEvidence (q.evidence ++ r.evidence)
      derivedFrom := orderedDerivations (q.derivedFrom ++ r.derivedFrom) } := by
  have hevidence : ∀ x ∈ q.evidence ++ r.evidence, IsEvidence x := fun x hx =>
    (mem_append.mp hx).elim (hq x) (hr x)
  have hderived : ∀ d ∈ q.derivedFrom ++ r.derivedFrom, IsReference d := fun d hd =>
    (mem_append.mp hd).elim (hq' d) (hr' d)
  unfold mergeRecord
  constructor
  · intro h
    rcases bind_eq_ok.mp h with ⟨_, hagree, h⟩
    rcases bind_eq_ok.mp h with ⟨evidence, hev, h⟩
    rw [sortDerivedFrom_again hderived, ok_bind] at h
    rcases (orderEvidence_again hevidence).mp hev with ⟨hstable, rfl⟩
    refine ⟨⟨requireAgreement_eq_ok.mp hagree, fun x hx => hstable x (mem_append_left _ hx),
      fun x hx => hstable x (mem_append_right _ hx)⟩, (Except.ok.inj h).symm⟩
  · rintro ⟨hcompatible, rfl⟩
    have hstable : ∀ x ∈ q.evidence ++ r.evidence, driveLike x.path = false := fun x hx =>
      (mem_append.mp hx).elim (hcompatible.left x) (hcompatible.right x)
    rw [requireAgreement_eq_ok.mpr hcompatible.agree, ok_bind,
      (orderEvidence_again hevidence).mpr ⟨hstable, rfl⟩, ok_bind, sortDerivedFrom_again hderived,
      ok_bind]

end Merging

section Grouping

variable [Unicode]

/-- Any two records of a triple are compatible. -/
def Mergeable (rs : List EdgeRow) : Prop :=
  rs.Pairwise (fun q r => q.triple = r.triple → Compatible q r)

variable {q r : EdgeRow} {schemaVersion : Str} {edges : List Edge}

theorem Compatible.symm (h : Compatible q r) : Compatible r q :=
  ⟨h.agree.symm, h.right, h.left⟩

theorem mergeable_concat {rs : List EdgeRow} :
    Mergeable (rs ++ [r]) ↔ Mergeable rs ∧ ∀ q ∈ rs, q.triple = r.triple → Compatible q r := by
  unfold Mergeable
  rw [pairwise_append]
  constructor
  · rintro ⟨h, _, hall⟩
    exact ⟨h, fun q hq => hall q hq r (mem_singleton_self r)⟩
  · rintro ⟨h, hall⟩
    refine ⟨h, pairwise_singleton _ _, fun q hq r' hr' => ?_⟩
    rw [mem_singleton.mp hr']
    exact hall q hq

/-- The group of a triple that occurs once is the record alone. -/
theorem merged_new {rs : List EdgeRow} (hr : Made r) (hnew : ∀ q ∈ rs, q.triple ≠ r.triple) :
    merged (rs ++ [r]) r = r := by
  have hgroup : group (rs ++ [r]) r = [r] := by
    unfold group
    rw [filter_append, filter_eq_nil_iff.mpr (fun q hq => by
      rw [decide_eq_true_eq]
      exact hnew q hq)]
    simp
  unfold merged
  rw [hgroup]
  simp [hr.orderedEvidence, hr.orderedDerivations]

/-- Entering a record into a list with one record for each triple. -/
theorem enterRecord_map {l : List EdgeRow} {f : EdgeRow → EdgeRow} {m : List EdgeRow}
    (hf : ∀ a, (f a).triple = a.triple) (hl : (l.map EdgeRecord.triple).Nodup) :
    enterRecord (l.map f) r = .ok m ↔
      (∀ a ∈ l, a.triple ≠ r.triple) ∧ m = l.map f ++ [r] ∨
      ∃ a ∈ l, a.triple = r.triple ∧ ∃ x, mergeRecord (f a) r = .ok x ∧
        m = l.map (fun b => if b.triple = r.triple then x else f b) := by
  induction l generalizing m with
  | nil =>
    simp only [map_nil, enterRecord, not_mem_nil, false_implies, implies_true, true_and,
      nil_append, false_and, exists_false, or_false, Except.ok.injEq]
    exact eq_comm
  | cons a l ih =>
    rw [map_cons, nodup_cons] at hl
    have ih := fun m => ih (m := m) hl.2
    rw [map_cons, enterRecord, hf]
    -- the first row is the one of the record's triple, and then no later row is
    by_cases ha : a.triple = r.triple
    · have hrest : ∀ b ∈ l, b.triple ≠ r.triple := fun b hb e =>
        hl.1 (mem_map.mpr ⟨b, hb, e.trans ha.symm⟩)
      have hmap : ∀ x, l.map (fun b => if b.triple = r.triple then x else f b) = l.map f :=
        fun x => map_congr_left (fun b hb => if_neg (hrest b hb))
      rw [if_pos ha]
      constructor
      · intro h
        rcases bind_eq_ok.mp h with ⟨x, hx, h⟩
        refine .inr ⟨a, mem_cons_self, ha, x, hx, ?_⟩
        rw [map_cons, if_pos ha, hmap]
        exact (Except.ok.inj h).symm
      · rintro (⟨hnone, _⟩ | ⟨b, hb, hbt, x, hx, rfl⟩)
        · exact absurd ha (hnone a mem_cons_self)
        · rcases mem_cons.mp hb with rfl | hb
          · rw [hx, ok_bind, map_cons, if_pos ha, hmap]
          · exact absurd hbt (hrest b hb)
    -- otherwise the record goes on to the later rows
    · rw [if_neg ha]
      constructor
      · intro h
        rcases bind_eq_ok.mp h with ⟨m', hm', h⟩
        cases h
        rcases (ih m').mp hm' with ⟨hnone, rfl⟩ | ⟨b, hb, hbt, x, hx, rfl⟩
        · refine .inl ⟨fun b hb => ?_, rfl⟩
          rcases mem_cons.mp hb with rfl | hb
          · exact ha
          · exact hnone b hb
        · refine .inr ⟨b, mem_cons_of_mem a hb, hbt, x, hx, ?_⟩
          rw [map_cons, if_neg ha]
      · rintro (⟨hnone, rfl⟩ | ⟨b, hb, hbt, x, hx, rfl⟩)
        · have hl' := (ih (l.map f ++ [r])).mpr
            (.inl ⟨fun b hb => hnone b (mem_cons_of_mem a hb), rfl⟩)
          rw [hl', ok_bind, cons_append]
        · rcases mem_cons.mp hb with rfl | hb
          · exact absurd hbt ha
          · have hl' := (ih _).mpr (.inr ⟨b, hb, hbt, x, hx, rfl⟩)
            rw [hl', ok_bind, map_cons, if_neg ha]

/-- Two different records of a mergeable list agree if they have one triple. -/
theorem Mergeable.compatible {rs : List EdgeRow} (h : Mergeable rs) (hq : q ∈ rs) (hr : r ∈ rs)
    (hne : q ≠ r) (ht : q.triple = r.triple) : Compatible q r := by
  have hsymm : Std.Symm (fun q r : EdgeRow => q.triple = r.triple → Compatible q r) :=
    ⟨fun _ _ hqr ht => (hqr ht.symm).symm⟩
  exact List.Pairwise.forall h hq hr hne ht

/-- One edge of the loop: it goes through exactly when it is compatible with
    every earlier edge of its triple. -/
theorem enterRecord_groupedOf {rs : List EdgeRow} {m : List EdgeRow} (hrs : ∀ q ∈ rs, Made q)
    (hr : Made r) (hm : Mergeable rs) :
    enterRecord (groupedOf rs) r = .ok m ↔
      (∀ q ∈ rs, q.triple = r.triple → Compatible q r) ∧ m = groupedOf (rs ++ [r]) := by
  have hother : ∀ a : EdgeRow, a.triple ≠ r.triple → merged (rs ++ [r]) a = merged rs a := by
    intro a ha
    refine merged_congr (fun q hq => ?_)
    rw [mem_append, mem_singleton]
    constructor
    · rintro (hmem | rfl)
      · exact hmem
      · exact absurd hq.symm ha
    · exact .inl
  rw [groupedOf, enterRecord_map (merged_triple rs) (firsts_nodup rs)]
  by_cases hnew : ∀ q ∈ rs, q.triple ≠ r.triple
  · -- The first edge of its triple is entered as it is.
    have hfirsts : firsts (rs ++ [r]) = firsts rs ++ [r] := by
      unfold firsts
      rw [Ordering.distinct_concat, if_neg]
      rintro (h | ⟨q, hq, ht⟩)
      · exact not_mem_nil h
      · exact hnew q hq ht
    have hgrouped : groupedOf (rs ++ [r]) = (firsts rs).map (merged rs) ++ [r] := by
      unfold groupedOf
      rw [hfirsts, map_append, map_singleton, merged_new hr hnew]
      congr 1
      exact map_congr_left (fun a ha =>
        hother a (hnew a (mem_of_mem_firsts ha)))
    rw [hgrouped]
    constructor
    · rintro (⟨_, rfl⟩ | ⟨a, ha, hat, _⟩)
      · exact ⟨fun q hq ht => absurd ht (hnew q hq), rfl⟩
      · exact absurd hat (hnew a (mem_of_mem_firsts ha))
    · rintro ⟨_, rfl⟩
      exact .inl ⟨fun a ha => hnew a (mem_of_mem_firsts ha), rfl⟩
  · -- A later edge is merged into the first one of its triple.
    have hold : ∃ q ∈ rs, q.triple = r.triple := by
      by_contra hno
      exact hnew (fun q hq ht => hno ⟨q, hq, ht⟩)
    have hfirsts : firsts (rs ++ [r]) = firsts rs := by
      unfold firsts
      rw [Ordering.distinct_concat, if_pos (.inr hold), append_nil]
    have hmerge : ∀ a ∈ firsts rs, a.triple = r.triple → ∀ x,
        mergeRecord (merged rs a) r = .ok x ↔
          (∀ q ∈ rs, q.triple = r.triple → Compatible q r) ∧ x = merged (rs ++ [r]) a := by
      intro a ha hat x
      have hars := (mem_of_mem_firsts ha)
      have hx : ({ merged rs a with
          evidence := orderedEvidence ((merged rs a).evidence ++ r.evidence)
          derivedFrom := orderedDerivations ((merged rs a).derivedFrom ++ r.derivedFrom) } :
            EdgeRow) = merged (rs ++ [r]) a := by
        rw [merged_concat_evidence hat, merged_concat_derivedFrom hat]
        rfl
      have hevidence : ∀ y ∈ (merged rs a).evidence, IsEvidence y := by
        intro y hy
        rcases mem_merged_evidence.mp hy with ⟨q, hq, _, hy⟩
        exact (hrs q hq).evidence y hy
      have hderived : ∀ y ∈ (merged rs a).derivedFrom, IsReference y := by
        intro y hy
        rcases mem_merged_derivedFrom.mp hy with ⟨q, hq, _, hy⟩
        exact (hrs q hq).derivedFrom y hy
      rw [mergeRecord_eq_ok hevidence hderived hr.evidence hr.derivedFrom, hx]
      refine and_congr_left (fun _ => ?_)
      constructor
      · intro h q hq hqt
        have hagree : Agree q r := by
          by_cases hqa : q = a
          · rw [hqa]
            exact ⟨h.agree.edgeId, h.agree.truthClass, h.agree.producer, h.agree.producerVersion⟩
          · have hqa := hm.compatible hq hars hqa (hqt.trans hat.symm)
            exact hqa.agree.trans
              ⟨h.agree.edgeId, h.agree.truthClass, h.agree.producer, h.agree.producerVersion⟩
        refine ⟨hagree, fun y hy => h.left y ?_, h.right⟩
        exact mem_merged_evidence.mpr ⟨q, hq, hqt.trans hat.symm, hy⟩
      · intro h
        have ha := h a hars hat
        refine ⟨⟨ha.agree.edgeId, ha.agree.truthClass, ha.agree.producer,
          ha.agree.producerVersion⟩, fun y hy => ?_, ha.right⟩
        rcases mem_merged_evidence.mp hy with ⟨q, hq, hqt, hy⟩
        exact (h q hq (hqt.trans hat)).left y hy
    have hupdate : ∀ a ∈ firsts rs, a.triple = r.triple →
        (firsts rs).map (fun b => if b.triple = r.triple then merged (rs ++ [r]) a
          else merged rs b) = groupedOf (rs ++ [r]) := by
      intro a ha hat
      unfold groupedOf
      rw [hfirsts]
      refine map_congr_left (fun b hb => ?_)
      by_cases hbt : b.triple = r.triple
      · rw [if_pos hbt]
        have hab : a = b := inj_on_of_nodup_map (firsts_nodup rs) ha hb
          (hat.trans hbt.symm)
        rw [hab]
      · rw [if_neg hbt, hother b hbt]
    constructor
    · rintro (⟨hnone, _⟩ | ⟨a, ha, hat, x, hx, rfl⟩)
      · rcases hold with ⟨q, hq, hqt⟩
        rcases exists_first hq with ⟨a, ha, hat⟩
        exact absurd (hat.trans hqt) (hnone a ha)
      · rcases (hmerge a ha hat x).mp hx with ⟨hall, rfl⟩
        exact ⟨hall, hupdate a ha hat⟩
    · rintro ⟨hall, rfl⟩
      rcases hold with ⟨q, hq, hqt⟩
      rcases exists_first hq with ⟨a, ha, hat⟩
      have hat := hat.trans hqt
      exact .inr ⟨a, ha, hat, _, (hmerge a ha hat _).mpr ⟨hall, rfl⟩, (hupdate a ha hat).symm⟩

/-- The loop goes through exactly when all records can be made and any two of
    a triple are compatible. -/
theorem groupEdges_groupedOf {rs m : List EdgeRow} (hrs : ∀ q ∈ rs, Made q) (hm : Mergeable rs) :
    groupEdges schemaVersion (groupedOf rs) edges = .ok m ↔
      ∃ rs', collect (canonicalEdgeRecord schemaVersion) edges = .ok rs' ∧
        Mergeable (rs ++ rs') ∧ m = groupedOf (rs ++ rs') := by
  induction edges generalizing rs with
  | nil =>
    rw [groupEdges, collect]
    constructor
    · intro h
      exact ⟨[], rfl, by rw [append_nil]; exact hm, by
        rw [append_nil]; exact (Except.ok.inj h).symm⟩
    · rintro ⟨rs', h, _, rfl⟩
      rw [← Except.ok.inj h, append_nil]
  | cons e edges ih =>
    rw [groupEdges, collect, bind_eq_ok]
    constructor
    · rintro ⟨r, hr, h⟩
      rcases bind_eq_ok.mp h with ⟨grouped, hg, h⟩
      have hmade := canonicalEdgeRecord_made hr
      rcases (enterRecord_groupedOf hrs hmade hm).mp hg with ⟨hall, rfl⟩
      have hrs' : ∀ q ∈ rs ++ [r], Made q := fun q hq => (mem_append.mp hq).elim (hrs q)
        (fun hq => by rw [mem_singleton.mp hq]; exact hmade)
      have hm' : Mergeable (rs ++ [r]) := mergeable_concat.mpr ⟨hm, hall⟩
      rcases (ih hrs' hm').mp h with ⟨rs', hcollect, hmergeable, rfl⟩
      rw [append_assoc] at hmergeable ⊢
      exact ⟨r :: rs', by rw [hr, ok_bind, hcollect, ok_bind], hmergeable, rfl⟩
    · rintro ⟨rs', hcollect, hmergeable, rfl⟩
      rcases bind_eq_ok.mp hcollect with ⟨r, hr, hcollect⟩
      rcases bind_eq_ok.mp hcollect with ⟨rs'', hrest, hcollect⟩
      have hrs'' := Except.ok.inj hcollect
      subst hrs''
      have hmade := canonicalEdgeRecord_made hr
      have hassoc : rs ++ r :: rs'' = (rs ++ [r]) ++ rs'' := by
        rw [append_assoc]
        rfl
      rw [hassoc] at hmergeable
      have hm' : Mergeable (rs ++ [r]) := (pairwise_append.mp hmergeable).1
      have hrs' : ∀ q ∈ rs ++ [r], Made q := fun q hq => (mem_append.mp hq).elim (hrs q)
        (fun hq => by rw [mem_singleton.mp hq]; exact hmade)
      refine ⟨r, hr, bind_eq_ok.mpr ⟨groupedOf (rs ++ [r]), ?_, ?_⟩⟩
      · exact (enterRecord_groupedOf hrs hmade hm).mpr ⟨(mergeable_concat.mp hm').2, rfl⟩
      · exact (ih hrs' hm').mpr ⟨rs'', hrest, hmergeable, by rw [hassoc]⟩

/-- What consolidation returns. -/
theorem consolidateEdges_eq_ok {m : List EdgeRow} :
    consolidateEdges schemaVersion edges = .ok m ↔
      ∃ rs, collect (canonicalEdgeRecord schemaVersion) edges = .ok rs ∧
        Mergeable rs ∧ m = groupedOf rs :=
  @groupEdges_groupedOf _ schemaVersion edges [] m (fun _ hq => absurd hq not_mem_nil)
    List.Pairwise.nil

end Grouping

end Canonical

end Partha
