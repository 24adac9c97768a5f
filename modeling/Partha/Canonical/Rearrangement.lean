import Mathlib.Tactic.ByContra
import Partha.Canonical.GraphHash

/-!
# Rearranged Graphs

Whether the canonical hash of a graph depends on the order of its facts, and on how often they come.

A graph is rearranged if its lists of facts, and the lists of evidence and derivations in them, have
the same elements as before. Two things can make a difference. Edges of one triple are merged into
the first one, and the loop compares neither the kinds of the subject nor those of the object, so
that the first edge decides about them. And evidence of an edge that comes twice is put into
canonical form once more, where a path that has come to look like a drive is refused.

Everything else is told by the sets of facts, and the two conditions are exact.

## Main definitions

* `Graph.Rearranged`: A graph with its facts in another order, or more often.
* `Edge.Fits`: When two edges of a triple can be merged.
* `Graph.Refused`: No rearrangement of a graph has a hash.
* `Graph.Told`: What an edge says is what all edges of some triple say.

## Theorems

* `hash_ok_iff`: When a graph has a hash.
* `Refused.raises`, `exists_accepted`: When no rearrangement has one.
* `contentOf_rearranged`: When rearrangements say the same.
* `rearranged_hash_iff`: When the hash is that of the sets of facts.
-/

namespace Partha

namespace Canonical

open Checked List

section Elements

variable {α : Type} {R : α → α → Prop} {l l' : List α}

/-- Lists with the same elements, up to a relation. -/
def SameElements (R : α → α → Prop) (l l' : List α) : Prop :=
  (∀ a ∈ l, ∃ a' ∈ l', R a a') ∧ ∀ a' ∈ l', ∃ a ∈ l, R a a'

theorem SameElements.symm (hsymm : ∀ {a b}, R a b → R b a) (h : SameElements R l l') :
    SameElements R l' l :=
  ⟨fun a' ha' => (h.2 a' ha').imp (fun _ ha => ⟨ha.1, hsymm ha.2⟩),
    fun a ha => (h.1 a ha).imp (fun _ ha' => ⟨ha'.1, hsymm ha'.2⟩)⟩

theorem sameElements_of_mem (hrefl : ∀ a, R a a) (h : ∀ a, a ∈ l ↔ a ∈ l') : SameElements R l l' :=
  ⟨fun a ha => ⟨a, (h a).mp ha, hrefl a⟩, fun a ha => ⟨a, (h a).mpr ha, hrefl a⟩⟩

/-- A list has the same elements as one in which no two are related. -/
theorem exists_representatives (hrefl : ∀ a, R a a) (l : List α) :
    ∃ m, SameElements R l m ∧ m ⊆ l ∧ m.Pairwise (fun a b => ¬ R a b) := by
  induction l with
  | nil => exact ⟨[], sameElements_of_mem hrefl (fun _ => Iff.rfl), fun _ h => h, List.Pairwise.nil⟩
  | cons a l ih =>
    rcases ih with ⟨m, hm, hsub, hpair⟩
    by_cases ha : ∃ b ∈ m, R a b
    · refine ⟨m, ⟨forall_mem_cons.mpr ⟨ha, hm.1⟩, fun b hb => ?_⟩,
        fun b hb => mem_cons_of_mem a (hsub hb), hpair⟩
      exact (hm.2 b hb).imp (fun c hc => ⟨mem_cons_of_mem a hc.1, hc.2⟩)
    · refine ⟨a :: m, ⟨?_, ?_⟩, cons_subset_cons a hsub, ?_⟩
      · refine forall_mem_cons.mpr ⟨⟨a, mem_cons_self, hrefl a⟩, fun b hb => ?_⟩
        exact (hm.1 b hb).imp (fun c hc => ⟨mem_cons_of_mem a hc.1, hc.2⟩)
      · refine forall_mem_cons.mpr ⟨⟨a, mem_cons_self, hrefl a⟩, fun b hb => ?_⟩
        exact (hm.2 b hb).imp (fun c hc => ⟨mem_cons_of_mem a hc.1, hc.2⟩)
      · exact pairwise_cons.mpr ⟨fun b hb hab => ha ⟨b, hb, hab⟩, hpair⟩

end Elements

section Definitions

/-- A node with its evidence in another order, or more often. -/
structure Node.Rearranged (n n' : Node) : Prop where
  fields : n' = { n with evidence := n'.evidence }
  evidence : ∀ e, e ∈ n.evidence ↔ e ∈ n'.evidence

structure Edge.Rearranged (e e' : Edge) : Prop where
  fields : e' = { e with evidence := e'.evidence, derivedFrom := e'.derivedFrom }
  evidence : ∀ x, x ∈ e.evidence ↔ x ∈ e'.evidence
  derivedFrom : ∀ r, r ∈ e.derivedFrom ↔ r ∈ e'.derivedFrom

structure Assertion.Rearranged (a a' : Assertion) : Prop where
  fields : a' = { a with derivedFrom := a'.derivedFrom }
  derivedFrom : ∀ r, r ∈ a.derivedFrom ↔ r ∈ a'.derivedFrom

/-- A graph with its facts in another order, or more often. -/
structure Graph.Rearranged (g g' : Graph) : Prop where
  rest : g' = { g with
    nodes := g'.nodes, edges := g'.edges, assertions := g'.assertions
    observations := g'.observations, diagnostics := g'.diagnostics }
  nodes : SameElements Node.Rearranged g.nodes g'.nodes
  edges : SameElements Edge.Rearranged g.edges g'.edges
  assertions : SameElements Assertion.Rearranged g.assertions g'.assertions
  observations : ∀ o, o ∈ g.observations ↔ o ∈ g'.observations
  diagnostics : ∀ d, d ∈ g.diagnostics ↔ d ∈ g'.diagnostics

/-- Two edges with the same values in the fields that are compared. -/
structure Edge.Agree (e e' : Edge) : Prop where
  edgeId : e.edgeId = e'.edgeId
  truthClass : e.truthClass = e'.truthClass
  producer : e.producer = e'.producer
  producerVersion : e.producerVersion = e'.producerVersion

/-- Computations with the same result, if there is one. -/
def SameResult {β : Type} (x y : Except CanonicalError β) : Prop :=
  ∀ b, x = .ok b ↔ y = .ok b

variable [Unicode]

/-- An edge whose evidence has no path that comes to look like a drive. -/
def Edge.Steady (e : Edge) : Prop :=
  ∀ x ∈ results prepareEvidence e.evidence, driveLike x.path = false

/-- Two edges that can be merged. -/
structure Edge.Fits (e e' : Edge) : Prop where
  agree : e.Agree e'
  left : e.Steady
  right : e'.Steady

/-- Every fact of a graph has a canonical record. -/
structure Graph.Made (g : Graph) : Prop where
  nodes : ∀ n ∈ g.nodes, ∃ r, nodeOf g.schemaVersion n = .ok r
  edges : ∀ e ∈ g.edges, ∃ r, canonicalEdgeRecord g.schemaVersion e = .ok r
  assertions : ∀ a ∈ g.assertions, ∃ r, assertionOf g.schemaVersion a = .ok r
  observations : ∀ o ∈ g.observations, ∃ r, observationContent o = .ok r
  diagnostics : ∀ d ∈ g.diagnostics, ∃ r, diagnosticContent d = .ok r

/-- A graph with a fact that has no canonical record, or with two different edges of a triple that
    cannot be merged. -/
def Graph.Refused (g : Graph) : Prop :=
  ¬ g.Made ∨ ∃ e ∈ g.edges, ∃ e' ∈ g.edges, e.triple = e'.triple ∧
    (¬ e.Agree e' ∨ ¬ e.Rearranged e' ∧ ¬ e.Steady)

/-- What an edge says is what all edges of some triple say. This is its own triple, unless keys
    differ only in their normal form. -/
def Graph.Told (g : Graph) : Prop :=
  ∀ e ∈ g.edges, ∃ f ∈ g.edges, ∀ f' ∈ g.edges, f'.triple = f.triple →
    edgeContent g.schemaVersion g.edges f' = edgeContent g.schemaVersion g.edges e

end Definitions

section Relations

theorem Node.Rearranged.refl (n : Node) : n.Rearranged n :=
  ⟨rfl, fun _ => Iff.rfl⟩

theorem Node.Rearranged.symm {n n' : Node} (h : n.Rearranged n') : n'.Rearranged n := by
  refine ⟨?_, fun e => (h.evidence e).symm⟩
  rw [h.fields]

theorem Edge.Rearranged.refl (e : Edge) : e.Rearranged e :=
  ⟨rfl, fun _ => Iff.rfl, fun _ => Iff.rfl⟩

variable {e e' f : Edge}

theorem Edge.Rearranged.symm (h : e.Rearranged e') : e'.Rearranged e := by
  refine ⟨?_, fun x => (h.evidence x).symm, fun r => (h.derivedFrom r).symm⟩
  rw [h.fields]

theorem Edge.Rearranged.trans {g : Edge} (h : e.Rearranged f) (h' : f.Rearranged g) :
    e.Rearranged g := by
  refine ⟨?_, fun x => (h.evidence x).trans (h'.evidence x),
    fun r => (h.derivedFrom r).trans (h'.derivedFrom r)⟩
  rw [h'.fields, h.fields]

theorem Edge.Rearranged.triple (h : e.Rearranged e') : e'.triple = e.triple := by
  rw [h.fields]
  rfl

theorem Assertion.Rearranged.refl (a : Assertion) : a.Rearranged a :=
  ⟨rfl, fun _ => Iff.rfl⟩

theorem Assertion.Rearranged.symm {a a' : Assertion} (h : a.Rearranged a') : a'.Rearranged a := by
  refine ⟨?_, fun r => (h.derivedFrom r).symm⟩
  rw [h.fields]

theorem Graph.Rearranged.symm {g g' : Graph} (h : g.Rearranged g') : g'.Rearranged g := by
  refine ⟨?_, h.nodes.symm Node.Rearranged.symm, h.edges.symm Edge.Rearranged.symm,
    h.assertions.symm Assertion.Rearranged.symm, fun o => (h.observations o).symm,
    fun d => (h.diagnostics d).symm⟩
  rw [h.rest]

/-- A graph with other edges that have the same elements. -/
theorem Graph.rearranged_edges (g : Graph) {edges : List Edge}
    (h : SameElements Edge.Rearranged g.edges edges) : g.Rearranged { g with edges := edges } :=
  ⟨rfl, sameElements_of_mem Node.Rearranged.refl (fun _ => Iff.rfl), h,
    sameElements_of_mem Assertion.Rearranged.refl (fun _ => Iff.rfl), fun _ => Iff.rfl,
    fun _ => Iff.rfl⟩

theorem Edge.Agree.refl (e : Edge) : e.Agree e :=
  ⟨rfl, rfl, rfl, rfl⟩

theorem Edge.Agree.symm (h : e.Agree e') : e'.Agree e :=
  ⟨h.edgeId.symm, h.truthClass.symm, h.producer.symm, h.producerVersion.symm⟩

theorem Edge.Rearranged.agree {f' : Edge} (h : e.Rearranged f) (h' : e'.Rearranged f')
    (hagree : f.Agree f') : e.Agree e' := by
  rw [h.fields, h'.fields] at hagree
  exact ⟨hagree.edgeId, hagree.truthClass, hagree.producer, hagree.producerVersion⟩

end Relations

section Results

variable {β γ : Type}

variable {x y : Except CanonicalError β} {α ρ : Type} {prepare : α → Except CanonicalError β}
  {rank : β → ρ} {l l' : List α} {e e' : Edge} {f : α → Except CanonicalError β}

theorem sameResult_iff : SameResult x y ↔ x.toOption = y.toOption := by
  constructor
  · intro h
    cases hx : x with
    | ok b => rw [(h b).mp hx]
    | error e =>
      cases hy : y with
      | ok b =>
        rw [(h b).mpr hy] at hx
        cases hx
      | error e' => rfl
  · intro h b
    cases x <;> cases y <;> simp_all [Except.toOption]

theorem SameResult.bind (h : SameResult x y) (f : β → Except CanonicalError γ) :
    SameResult (x >>= f) (y >>= f) := by
  intro c
  rw [bind_eq_ok, bind_eq_ok]
  exact exists_congr fun b => and_congr_left fun _ => h b

theorem SameResult.arrange [Record β] [LinearOrder ρ] {prepare' : α → Except CanonicalError β}
    (h : ∀ a ∈ l, ∃ a' ∈ l', SameResult (prepare a) (prepare' a'))
    (h' : ∀ a' ∈ l', ∃ a ∈ l, SameResult (prepare a) (prepare' a')) :
    SameResult (arrange prepare rank l) (arrange prepare' rank l') := by
  refine sameResult_iff.mpr (arrange_toOption (fun a ha => ?_) fun a' ha' => ?_)
  · exact (h a ha).imp fun _ hb => ⟨hb.1, sameResult_iff.mp hb.2⟩
  · exact (h' a' ha').imp fun _ hb => ⟨hb.1, sameResult_iff.mp hb.2⟩

theorem sameResult_arrange_of_mem [Record β] [LinearOrder ρ] (h : ∀ a, a ∈ l ↔ a ∈ l') :
    SameResult (arrange prepare rank l) (arrange prepare rank l') :=
  SameResult.arrange (fun a ha => ⟨a, (h a).mp ha, fun _ => Iff.rfl⟩)
    (fun a ha => ⟨a, (h a).mpr ha, fun _ => Iff.rfl⟩)

variable [Unicode]

theorem sameResult_orderEvidence {l l' : List Evidence} (h : ∀ e, e ∈ l ↔ e ∈ l') :
    SameResult (orderEvidence l) (orderEvidence l') := by
  intro m
  rw [orderEvidence_eq_ok, orderEvidence_eq_ok]
  exact sameResult_arrange_of_mem h m

theorem sameResult_sortDerivedFrom {l l' : List Reference} (h : ∀ r, r ∈ l ↔ r ∈ l') :
    SameResult (sortDerivedFrom l) (sortDerivedFrom l') :=
  sameResult_arrange_of_mem h

theorem Node.Rearranged.nodeOf {n n' : Node} (h : n.Rearranged n') (schemaVersion : Str) :
    SameResult (nodeOf schemaVersion n) (nodeOf schemaVersion n') := by
  have hevidence := sameResult_orderEvidence h.evidence
  rw [h.fields]
  exact (hevidence.bind _).bind _

theorem Edge.Rearranged.canonicalEdgeRecord (h : e.Rearranged e') (schemaVersion : Str) :
    SameResult (canonicalEdgeRecord schemaVersion e) (canonicalEdgeRecord schemaVersion e') := by
  have hevidence := sameResult_orderEvidence h.evidence
  have hderived := sameResult_sortDerivedFrom h.derivedFrom
  rw [h.fields]
  intro r
  unfold Canonical.canonicalEdgeRecord
  simp only [bind_eq_ok]
  exact exists_congr fun x => and_congr (hevidence x)
    (exists_congr fun d => and_congr_left fun _ => hderived d)

theorem Assertion.Rearranged.assertionOf {a a' : Assertion} (h : a.Rearranged a')
    (schemaVersion : Str) :
    SameResult (assertionOf schemaVersion a) (assertionOf schemaVersion a') := by
  have hderived := sameResult_sortDerivedFrom h.derivedFrom
  rw [h.fields]
  exact (hderived.bind _).bind _

omit [Unicode] in
/-- What all elements have, all related ones have. -/
theorem SameElements.exists_ok {R : α → α → Prop} (h : SameElements R l l')
    (hR : ∀ a a', R a a' → SameResult (f a) (f a')) (hl : ∀ a ∈ l, ∃ b, f a = .ok b) :
    ∀ a' ∈ l', ∃ b, f a' = .ok b := by
  intro a' ha'
  rcases h.2 a' ha' with ⟨a, ha, haa'⟩
  exact (hl a ha).imp fun b hb => (hR a a' haa' b).mp hb

theorem Graph.Made.rearranged {g g' : Graph} (hmade : g.Made) (h : g.Rearranged g') : g'.Made := by
  have hversion : g'.schemaVersion = g.schemaVersion := by
    rw [h.rest]
  refine ⟨?_, ?_, ?_, fun o ho => hmade.observations o ((h.observations o).mpr ho),
    fun d hd => hmade.diagnostics d ((h.diagnostics d).mpr hd)⟩
  · rw [hversion]
    exact h.nodes.exists_ok (fun _ _ hn => hn.nodeOf _) hmade.nodes
  · rw [hversion]
    exact h.edges.exists_ok (fun _ _ he => he.canonicalEdgeRecord _) hmade.edges
  · rw [hversion]
    exact h.assertions.exists_ok (fun _ _ ha => ha.assertionOf _) hmade.assertions

omit [Unicode] in
theorem results_congr (h : ∀ a, a ∈ l ↔ a ∈ l') : results f l = results f l' :=
  Set.ext fun _ => exists_congr fun a => and_congr_left fun _ => h a

theorem Edge.Rearranged.steady (h : e.Rearranged e') (hsteady : e.Steady) : e'.Steady := by
  unfold Edge.Steady
  rw [← results_congr h.evidence]
  exact hsteady

end Results

section Hashes

variable [Unicode]

variable {schemaVersion : Str} {e : Edge} {r : EdgeRow}

theorem canonicalEdgeRecord_fields (h : canonicalEdgeRecord schemaVersion e = .ok r) :
    (r.edgeId = e.edgeId ∧ r.truthClass = e.truthClass) ∧ r.producer = e.producer ∧
      r.producerVersion = e.producerVersion := by
  rcases bind_eq_ok.mp h with ⟨_, _, h⟩
  rcases bind_eq_ok.mp h with ⟨_, _, h⟩
  cases h
  exact ⟨⟨rfl, rfl⟩, rfl, rfl⟩

theorem stable_iff (h : canonicalEdgeRecord schemaVersion e = .ok r) : Stable r ↔ e.Steady := by
  unfold Edge.Steady
  rw [← (edgeOf_content h).2.1]
  exact Iff.rfl

theorem compatible_iff {e' : Edge} {r' : EdgeRow} (h : canonicalEdgeRecord schemaVersion e = .ok r)
    (h' : canonicalEdgeRecord schemaVersion e' = .ok r') : Compatible r r' ↔ e.Fits e' := by
  rcases canonicalEdgeRecord_fields h with ⟨⟨hid, htruth⟩, hproducer, hversion⟩
  rcases canonicalEdgeRecord_fields h' with ⟨⟨hid', htruth'⟩, hproducer', hversion'⟩
  have hagree : Agree r r' ↔ e.Agree e' := by
    constructor
    · intro hr
      exact ⟨by rw [← hid, ← hid', hr.edgeId], by rw [← htruth, ← htruth', hr.truthClass],
        by rw [← hproducer, ← hproducer', hr.producer],
        by rw [← hversion, ← hversion', hr.producerVersion]⟩
    · intro he
      exact ⟨by rw [hid, hid', he.edgeId], by rw [htruth, htruth', he.truthClass],
        by rw [hproducer, hproducer', he.producer],
        by rw [hversion, hversion', he.producerVersion]⟩
  constructor
  · exact fun hc => ⟨hagree.mp hc.agree, (stable_iff h).mp hc.left, (stable_iff h').mp hc.right⟩
  · exact fun hf => ⟨hagree.mpr hf.agree, (stable_iff h).mpr hf.left, (stable_iff h').mpr hf.right⟩

/-- Any two edges of a triple can be merged. -/
def AllFit (edges : List Edge) : Prop :=
  edges.Pairwise (fun e e' => e.triple = e'.triple → e.Fits e')

theorem mergeable_iff {edges : List Edge} {rs : List EdgeRow}
    (h : collect (canonicalEdgeRecord schemaVersion) edges = .ok rs) :
    Mergeable rs ↔ AllFit edges := by
  have hall := collect_eq_ok.mp h
  clear h
  unfold Mergeable AllFit
  induction hall with
  | nil => exact iff_of_true List.Pairwise.nil List.Pairwise.nil
  | @cons e r edges rs her hall ih =>
    rw [pairwise_cons, pairwise_cons]
    refine and_congr ?_ ih
    have hpair : ∀ e' r', canonicalEdgeRecord schemaVersion e' = .ok r' →
        ((r.triple = r'.triple → Compatible r r') ↔ (e.triple = e'.triple → e.Fits e')) := by
      intro e' r' her'
      rw [(edgeOf_content her).1, (edgeOf_content her').1, compatible_iff her her']
    constructor
    · intro h e' he'
      rcases forall₂_mem_left hall he' with ⟨r', hr', her'⟩
      exact (hpair e' r' her').mp (h r' hr')
    · intro h r' hr'
      rcases forall₂_mem_right hall hr' with ⟨e', he', her'⟩
      exact (hpair e' r' her').mpr (h e' he')

variable [Hashing]

/-- A graph has a hash exactly when every fact has a record and any two edges of a triple can be
    merged. -/
theorem hash_ok_iff {g : Graph} :
    (∃ h, computeCanonicalGraphHash g = .ok h) ↔ g.Made ∧ AllFit g.edges := by
  constructor
  · rintro ⟨h, hg⟩
    rcases computeCanonicalGraphHash_eq_ok.mp hg with ⟨a, ha, -⟩
    rcases ha.edges with ⟨rs, hrs, hm, -⟩
    exact ⟨⟨arrange_ok_iff.mp ⟨_, ha.nodes⟩, collect_ok_iff.mp ⟨_, hrs⟩,
      arrange_ok_iff.mp ⟨_, ha.assertions⟩, arrange_ok_iff.mp ⟨_, ha.observations⟩,
      arrange_ok_iff.mp ⟨_, ha.diagnostics⟩⟩, (mergeable_iff hrs).mp hm⟩
  · rintro ⟨hmade, hfit⟩
    have hnodes : ∃ m, arrange (nodeOf g.schemaVersion) nodeRank g.nodes = .ok m :=
      arrange_ok_iff.mpr hmade.nodes
    have hassertions : ∃ m, arrange (assertionOf g.schemaVersion) assertionRank g.assertions =
        .ok m := arrange_ok_iff.mpr hmade.assertions
    have hobservations : ∃ m, arrange observationContent observationRank g.observations = .ok m :=
      arrange_ok_iff.mpr hmade.observations
    have hdiagnostics : ∃ m, arrange diagnosticContent diagnosticRank g.diagnostics = .ok m :=
      arrange_ok_iff.mpr hmade.diagnostics
    rcases collect_ok_iff.mpr hmade.edges with ⟨rs, hrs⟩
    rcases orderRecords_groupedOf_ok (collect_made hrs) with ⟨edges, hedges⟩
    rcases hnodes with ⟨nodes, hnodes⟩
    rcases hassertions with ⟨assertions, hassertions⟩
    rcases hobservations with ⟨observations, hobservations⟩
    rcases hdiagnostics with ⟨diagnostics, hdiagnostics⟩
    exact ⟨_, computeCanonicalGraphHash_eq_ok.mpr ⟨⟨nodes, edges, assertions, observations,
      diagnostics⟩, ⟨hnodes, ⟨rs, hrs, (mergeable_iff hrs).mpr hfit, hedges⟩, hassertions,
      hobservations, hdiagnostics⟩, rfl⟩⟩

end Hashes

section Refusal

variable [Unicode]

variable {e : Edge} {g : Graph}

theorem AllFit.fits {edges : List Edge} (h : AllFit edges) {e' : Edge} (he : e ∈ edges)
    (he' : e' ∈ edges) (hne : e ≠ e') (ht : e.triple = e'.triple) : e.Fits e' := by
  have hsymm : Std.Symm (fun e e' : Edge => e.triple = e'.triple → e.Fits e') :=
    ⟨fun _ _ hfit ht => ⟨(hfit ht.symm).agree.symm, (hfit ht.symm).right, (hfit ht.symm).left⟩⟩
  exact List.Pairwise.forall h he he' hne ht

theorem Graph.Refused.rearranged {g' : Graph} (hrefused : g.Refused) (h : g.Rearranged g') :
    g'.Refused := by
  rcases hrefused with hmade | ⟨e, he, e', he', ht, hbad⟩
  · exact .inl fun hmade' => hmade (hmade'.rearranged h.symm)
  · rcases h.edges.1 e he with ⟨f, hf, hef⟩
    rcases h.edges.1 e' he' with ⟨f', hf', hef'⟩
    refine .inr ⟨f, hf, f', hf', (hef.triple.trans ht).trans hef'.triple.symm, ?_⟩
    rcases hbad with hagree | ⟨hother, hsteady⟩
    · exact .inl fun hff => hagree (hef.agree hef' hff)
    · exact .inr ⟨fun hff => hother ((hef.trans hff).trans hef'.symm),
        fun hf => hsteady (hef.symm.steady hf)⟩

variable [Hashing]

/-- A refused graph has no hash. -/
theorem Graph.Refused.raises (hrefused : g.Refused) (h : Str) :
    computeCanonicalGraphHash g ≠ .ok h := by
  intro hok
  rcases hash_ok_iff.mp ⟨h, hok⟩ with ⟨hmade, hfit⟩
  rcases hrefused with hnot | ⟨e, he, e', he', ht, hagree | ⟨hother, hsteady⟩⟩
  · exact hnot hmade
  · have hne : e ≠ e' := by
      rintro rfl
      exact hagree (Edge.Agree.refl e)
    exact hagree (hfit.fits he he' hne ht).agree
  · have hne : e ≠ e' := by
      rintro rfl
      exact hother (Edge.Rearranged.refl e)
    exact hsteady (hfit.fits he he' hne ht).left

/-- Any other graph has one once each of its edges comes once. -/
theorem exists_accepted (h : ¬ g.Refused) :
    ∃ g', g.Rearranged g' ∧ ∃ hash, computeCanonicalGraphHash g' = .ok hash := by
  unfold Graph.Refused at h
  push Not at h
  rcases h with ⟨hmade, hpairs⟩
  rcases exists_representatives Edge.Rearranged.refl g.edges with ⟨m, hsame, hsub, hdistinct⟩
  have hg := g.rearranged_edges hsame
  refine ⟨_, hg, hash_ok_iff.mpr ⟨hmade.rearranged hg, hdistinct.imp_of_mem ?_⟩⟩
  intro e e' he he' hother ht
  have hleft := hpairs e (hsub he) e' (hsub he') ht
  have hright := hpairs e' (hsub he') e (hsub he) ht.symm
  exact ⟨hleft.1, hleft.2 hother, hright.2 fun hback => hother hback.symm⟩

/-- An edge that is not steady cannot come twice. -/
theorem twice_raises (he : ¬ e.Steady) (h : Str) :
    computeCanonicalGraphHash { g with edges := e :: e :: g.edges } ≠ .ok h := by
  intro hok
  have hfit := (hash_ok_iff.mp ⟨h, hok⟩).2
  exact he ((pairwise_cons.mp hfit).1 e mem_cons_self rfl).left

/-- A graph whose edges are steady has a hash unless it is refused. -/
theorem hash_of_steady (h : ¬ g.Refused) (hsteady : ∀ e ∈ g.edges, e.Steady) :
    ∃ hash, computeCanonicalGraphHash g = .ok hash := by
  unfold Graph.Refused at h
  push Not at h
  refine hash_ok_iff.mpr ⟨h.1, pairwise_of_forall_mem_list ?_⟩
  exact fun e he e' he' ht => ⟨(h.2 e he e' he' ht).1, hsteady e he, hsteady e' he'⟩

end Refusal

section Contents

variable [Unicode] {l l' : List Edge} {schemaVersion : Str}

/-- What an edge says depends on the elements of the lists. -/
theorem edgeContent_rearranged (h : SameElements Edge.Rearranged l l') {e e' : Edge}
    (he : e.Rearranged e') :
    edgeContent schemaVersion l e = edgeContent schemaVersion l' e' := by
  have hgroup : ∀ {P : Edge → Prop}, (∀ q q', q.Rearranged q' → (P q ↔ P q')) →
      ((∃ q ∈ l, q.triple = e.triple ∧ P q) ↔ ∃ q ∈ l', q.triple = e'.triple ∧ P q) := by
    intro P hP
    rw [he.triple]
    constructor
    · rintro ⟨q, hq, ht, hp⟩
      rcases h.1 q hq with ⟨q', hq', hqq⟩
      exact ⟨q', hq', hqq.triple.trans ht, (hP q q' hqq).mp hp⟩
    · rintro ⟨q', hq', ht, hp⟩
      rcases h.2 q' hq' with ⟨q, hq, hqq⟩
      exact ⟨q, hq, hqq.triple.symm.trans ht, (hP q q' hqq).mpr hp⟩
  have hevidence : {x | ∃ q ∈ l, q.triple = e.triple ∧ x ∈ results prepareEvidence q.evidence} =
      {x | ∃ q ∈ l', q.triple = e'.triple ∧ x ∈ results prepareEvidence q.evidence} :=
    Set.ext fun x => hgroup fun q q' hq => by rw [results_congr hq.evidence]
  have hderived :
      {d | ∃ q ∈ l, q.triple = e.triple ∧ d ∈ results prepareReference q.derivedFrom} =
        {d | ∃ q ∈ l', q.triple = e'.triple ∧ d ∈ results prepareReference q.derivedFrom} :=
    Set.ext fun d => hgroup fun q q' hq => by rw [results_congr hq.derivedFrom]
  unfold edgeContent
  rw [hevidence, hderived, he.fields]

/-- What the edges of a graph whose edges are told say does not depend on their order. -/
theorem edgeContents_subset (h : SameElements Edge.Rearranged l l')
    (htold : ∀ e ∈ l, ∃ f ∈ l, ∀ f' ∈ l, f'.triple = f.triple →
      edgeContent schemaVersion l f' = edgeContent schemaVersion l e) :
    edgeContents schemaVersion l ⊆ edgeContents schemaVersion l' := by
  rintro _ ⟨e, he, rfl⟩
  rcases htold e (Ordering.distinct_subset he).1 with ⟨f, hf, hall⟩
  rcases h.1 f hf with ⟨f₁, hf₁, hff₁⟩
  rcases Ordering.exists_distinct hf₁ (not_mem_nil (a := Edge.triple f₁)) with ⟨a, ha, hat⟩
  rcases h.2 a (Ordering.distinct_subset ha).1 with ⟨a₀, ha₀, haa⟩
  refine ⟨a, ha, ?_⟩
  rw [← edgeContent_rearranged h haa]
  exact (hall a₀ ha₀ ((haa.triple.symm.trans hat).trans hff₁.triple)).symm

variable {g g' : Graph}

theorem Graph.Told.rearranged (htold : g.Told) (h : g.Rearranged g') : g'.Told := by
  have hversion : g'.schemaVersion = g.schemaVersion := by
    rw [h.rest]
  unfold Graph.Told
  rw [hversion]
  intro e' he'
  rcases h.edges.2 e' he' with ⟨e, he, hee⟩
  rcases htold e he with ⟨f, hf, hall⟩
  rcases h.edges.1 f hf with ⟨f', hf', hff⟩
  refine ⟨f', hf', fun a' ha' hat => ?_⟩
  rcases h.edges.2 a' ha' with ⟨a, ha, haa⟩
  rw [← edgeContent_rearranged h.edges haa, ← edgeContent_rearranged h.edges hee]
  exact hall a ha ((haa.triple.symm.trans hat).trans hff.triple)

omit [Unicode] in
theorem SameElements.results {α β : Type} {R : α → α → Prop} {l l' : List α}
    {f : α → Except CanonicalError β} (h : SameElements R l l') (hf : ∀ a a', R a a' → f a = f a') :
    results f l = results f l' := by
  ext b
  constructor
  · rintro ⟨a, ha, hb⟩
    rcases h.1 a ha with ⟨a', ha', haa⟩
    exact ⟨a', ha', (hf a a' haa).symm.trans hb⟩
  · rintro ⟨a', ha', hb⟩
    rcases h.2 a' ha' with ⟨a, ha, haa⟩
    exact ⟨a, ha, (hf a a' haa).trans hb⟩

theorem Node.Rearranged.content {n n' : Node} (h : n.Rearranged n') (schemaVersion : Str) :
    nodeContent schemaVersion n = nodeContent schemaVersion n' := by
  unfold nodeContent
  rw [results_congr h.evidence, h.fields]

theorem Assertion.Rearranged.content {a a' : Assertion} (h : a.Rearranged a')
    (schemaVersion : Str) :
    assertionContent schemaVersion a = assertionContent schemaVersion a' := by
  unfold assertionContent
  rw [results_congr h.derivedFrom, h.fields]

/-- Rearrangements of a graph whose edges are told say the same. -/
theorem contentOf_rearranged (h : g.Rearranged g') (htold : g.Told) :
    contentOf g = contentOf g' := by
  have hversion : g'.schemaVersion = g.schemaVersion := by
    rw [h.rest]
  have htold' := htold.rearranged h
  unfold Graph.Told at htold'
  rw [hversion] at htold'
  have hedges : edgeContents g.schemaVersion g.edges = edgeContents g.schemaVersion g'.edges :=
    Set.Subset.antisymm (edgeContents_subset h.edges htold)
      (edgeContents_subset (h.edges.symm Edge.Rearranged.symm) htold')
  have hnodes := h.nodes.results (fun _ _ hn => hn.content g.schemaVersion)
  have hassertions := h.assertions.results (fun _ _ ha => ha.content g.schemaVersion)
  have hobservations : results observationContent g.observations =
      results observationContent g'.observations := results_congr h.observations
  have hdiagnostics : results diagnosticContent g.diagnostics =
      results diagnosticContent g'.diagnostics := results_congr h.diagnostics
  unfold contentOf
  rw [hnodes, hedges, hassertions, hobservations, hdiagnostics, h.rest]

omit [Unicode] in
/-- The first edge of a triple is in the front if the triple is. -/
theorem mem_front_of_distinct {front back : List Edge} {a f : Edge}
    (ha : a ∈ Ordering.distinct Edge.triple [] (front ++ back)) (hf : f ∈ front)
    (ht : f.triple = a.triple) : a ∈ front := by
  rcases (Ordering.mem_distinct_iff.mp ha).2 with ⟨before, after, heq, hbefore⟩
  rcases append_eq_append_iff.mp heq with ⟨rest, rfl, -⟩ | ⟨rest, rfl, hrest⟩
  · exact absurd ht (hbefore f (mem_append_left rest hf))
  · cases rest with
    | nil =>
      rw [append_nil] at hf
      exact absurd ht (hbefore f hf)
    | cons b rest =>
      rw [(List.cons.inj hrest).1]
      exact mem_append_right before mem_cons_self

open Classical in
/-- If what an edge says is not told, it is said by one rearrangement and not by another one. -/
theorem exists_untold (h : ¬ g.Told) :
    ∃ g₁ g₂, g.Rearranged g₁ ∧ g.Rearranged g₂ ∧ contentOf g₁ ≠ contentOf g₂ := by
  unfold Graph.Told at h
  push Not at h
  rcases h with ⟨e, he, hother⟩
  let content := edgeContent g.schemaVersion g.edges
  let front := g.edges.filter (fun f => content f ≠ content e)
  have hfront : SameElements Edge.Rearranged g.edges (e :: g.edges) :=
    sameElements_of_mem Edge.Rearranged.refl fun a =>
      ⟨mem_cons_of_mem e, fun ha => (mem_cons.mp ha).elim (fun hae => hae ▸ he) id⟩
  have hback : SameElements Edge.Rearranged g.edges (front ++ g.edges) :=
    sameElements_of_mem Edge.Rearranged.refl fun a =>
      ⟨mem_append_right front, fun ha => (mem_append.mp ha).elim
        (fun haf => (mem_filter.mp haf).1) id⟩
  refine ⟨_, _, g.rearranged_edges hfront, g.rearranged_edges hback, fun heq => ?_⟩
  have hedges : edgeContents g.schemaVersion (e :: g.edges) =
      edgeContents g.schemaVersion (front ++ g.edges) := congrArg Content.edges heq
  have hsaid : content e ∈ edgeContents g.schemaVersion (e :: g.edges) := by
    refine ⟨e, ?_, edgeContent_rearranged hfront (Edge.Rearranged.refl e)⟩
    exact Ordering.mem_distinct_iff.mpr ⟨not_mem_nil, [], g.edges, rfl,
      fun b hb => absurd hb not_mem_nil⟩
  rw [hedges] at hsaid
  rcases hsaid with ⟨a, ha, hsame⟩
  rw [← edgeContent_rearranged hback (Edge.Rearranged.refl a)] at hsame
  have hmem : a ∈ g.edges := (mem_append.mp (Ordering.distinct_subset ha).1).elim
    (fun haf => (mem_filter.mp haf).1) id
  rcases hother a hmem with ⟨f, hf, ht, hne⟩
  have hin : f ∈ front := mem_filter.mpr ⟨hf, decide_eq_true hne⟩
  have haf := mem_filter.mp (mem_front_of_distinct ha hin ht)
  exact absurd hsame.symm (of_decide_eq_true haf.2)

end Contents

section Identity

variable [Unicode] [Hashing]

/-- The hash of a graph is told by the sets of its facts: it is the hash of the graphs that say the
    same and of no other ones, and rearranging facts changes neither it nor whether there is one. -/
def ToldBySets (g : Graph) : Prop :=
  (∀ g' h h', computeCanonicalGraphHash g = .ok h → computeCanonicalGraphHash g' = .ok h' →
    (h = h' ↔ contentOf g = contentOf g')) ∧
  ∀ g', g.Rearranged g' → SameResult (computeCanonicalGraphHash g) (computeCanonicalGraphHash g')

theorem ToldBySets.steady {g : Graph} (h : ToldBySets g) (hrefused : ¬ g.Refused) :
    ∀ e ∈ g.edges, e.Steady := by
  intro e he
  by_contra hnot
  rcases exists_accepted hrefused with ⟨g', hg', hash, hok⟩
  have htwice : SameElements Edge.Rearranged g.edges (e :: e :: g.edges) :=
    sameElements_of_mem Edge.Rearranged.refl fun a => by
      rw [mem_cons, mem_cons]
      exact ⟨fun ha => .inr (.inr ha), fun ha => ha.elim (fun hae => hae ▸ he)
        (fun ha => ha.elim (fun hae => hae ▸ he) id)⟩
  have hg := (h.2 g' hg' hash).mpr hok
  exact twice_raises hnot hash ((h.2 _ (g.rearranged_edges htwice) hash).mp hg)

theorem ToldBySets.told (hsha : Function.Injective sha256Hex) {g : Graph} (h : ToldBySets g)
    (hrefused : ¬ g.Refused) : g.Told := by
  by_contra htold
  rcases exists_untold htold with ⟨g₁, g₂, hg₁, hg₂, hne⟩
  rcases hash_of_steady hrefused (h.steady hrefused) with ⟨hash, hok⟩
  have hok₁ := (h.2 g₁ hg₁ hash).mp hok
  have hok₂ := (h.2 g₂ hg₂ hash).mp hok
  exact hne ((computeCanonicalGraphHash_eq_iff hsha hok₁ hok₂).mp rfl)

/-- The hash of a graph is told by the sets of its facts exactly when the graph is refused in every
    order, or its evidence is steady and the edges of a triple say the same. -/
theorem rearranged_hash_iff (hsha : Function.Injective sha256Hex) (g : Graph) :
    ToldBySets g ↔ g.Refused ∨ (∀ e ∈ g.edges, e.Steady) ∧ g.Told := by
  constructor
  · intro h
    by_cases hrefused : g.Refused
    · exact .inl hrefused
    · exact .inr ⟨h.steady hrefused, h.told hsha hrefused⟩
  · intro h
    refine ⟨fun g' h h' hg hg' => computeCanonicalGraphHash_eq_iff hsha hg hg', fun g' hg => ?_⟩
    rcases h with hrefused | ⟨hsteady, htold⟩
    · exact fun hash => iff_of_false (hrefused.raises hash) ((hrefused.rearranged hg).raises hash)
    · by_cases hrefused : g.Refused
      · exact fun hash =>
          iff_of_false (hrefused.raises hash) ((hrefused.rearranged hg).raises hash)
      · have hrefused' : ¬ g'.Refused := fun h' => hrefused (h'.rearranged hg.symm)
        have hsteady' : ∀ e ∈ g'.edges, e.Steady := by
          intro e he
          rcases hg.edges.2 e he with ⟨f, hf, hfe⟩
          exact hfe.steady (hsteady f hf)
        rcases hash_of_steady hrefused hsteady with ⟨hash, hok⟩
        rcases hash_of_steady hrefused' hsteady' with ⟨hash', hok'⟩
        have heq : hash = hash' := (computeCanonicalGraphHash_eq_iff hsha hok hok').mpr
          (contentOf_rearranged hg htold)
        intro b
        rw [hok, hok', heq]

end Identity

section Samples

def sampleEvidence (path : Str) : Evidence where
  path := path
  startLine := 1
  endLine := 1
  granularity := none
  extractor := ['e']
  extractorVersion := ['1']

def sampleEdge (kind path : Str) : Edge where
  edgeId := ['i']
  subjectKind := kind
  subjectKey := ['a']
  predicate := ['p']
  objectKind := ['o']
  objectKey := ['b']
  truthClass := ['t']
  producer := ['e']
  producerVersion := ['1']
  evidence := [sampleEvidence path]
  derivedFrom := []

def sampleGraph (edges : List Edge) : Graph where
  revisionKind := ['k']
  revisionValue := ['v']
  producerVersionSet := []
  configHash := []
  nodes := []
  edges := edges
  assertions := []
  observations := []
  diagnostics := []
  schemaVersion := ['1']

theorem made_sampleGraph {edges : List Edge}
    (h : ∀ e ∈ edges, ∃ r, @canonicalEdgeRecord asciiText ['1'] e = .ok r) :
    @Graph.Made asciiText (sampleGraph edges) :=
  @Graph.Made.mk asciiText _ (fun _ hn => absurd hn not_mem_nil) h
    (fun _ ha => absurd ha not_mem_nil) (fun _ ho => absurd ho not_mem_nil)
    (fun _ hd => absurd hd not_mem_nil)

/-- The bytes of the document of a graph. -/
def documentBytes (g : Graph) : List UInt8 :=
  match @canonicalArrays asciiText g with
  | .error _ => []
  | .ok a => @JsonText.utf8 (@text (@canonicalDocument asciiText g a))

/-- A graph with one edge, with a hash that is right about its document. -/
theorem sample_told_by_sets :
    @ToldBySets asciiText (collisionFree (documentBytes (sampleGraph [sampleEdge ['s'] ['x']])))
      (sampleGraph [sampleEdge ['s'] ['x']]) := by
  refine (@rearranged_hash_iff asciiText
    (collisionFree (documentBytes (sampleGraph [sampleEdge ['s'] ['x']])))
    (collisionFree_injective _) (sampleGraph [sampleEdge ['s'] ['x']])).mpr
    (.inr ⟨fun e he x hx => ?_, fun e he => ⟨e, he, fun f hf _ => ?_⟩⟩)
  · rw [mem_singleton.mp he] at hx
    rcases hx with ⟨y, hy, hyx⟩
    rw [mem_singleton.mp hy] at hyx
    cases hyx
    decide
  · rw [mem_singleton.mp he, mem_singleton.mp hf]

/-- An edge with the path `./C:/x` has a hash alone and none if it comes twice, and two edges of a
    triple with different kinds of subjects have another hash in the other order. -/
theorem order_and_number_matter :
    (¬ @ToldBySets asciiText sha256
        (sampleGraph [sampleEdge ['s'] ['.', '/', 'C', ':', '/', 'x']])) ∧
      ¬ @ToldBySets asciiText (collisionFree [])
        (sampleGraph [sampleEdge ['s'] ['x'], sampleEdge ['u'] ['x']]) := by
  constructor
  -- evidence whose path is not steady: normalised once more it is another path
  · intro h
    have hrefused : ¬ @Graph.Refused asciiText
        (sampleGraph [sampleEdge ['s'] ['.', '/', 'C', ':', '/', 'x']]) := by
      rintro (hmade | ⟨e, he, e', he', -, hbad⟩)
      · refine hmade (made_sampleGraph fun e he => ?_)
        rw [mem_singleton.mp he]
        exact ⟨_, rfl⟩
      · rw [mem_singleton.mp he, mem_singleton.mp he'] at hbad
        exact hbad.elim (fun hagree => hagree (Edge.Agree.refl _))
          (fun hother => hother.1 (Edge.Rearranged.refl _))
    have hsteady := @ToldBySets.steady asciiText sha256 _ h hrefused _ (mem_singleton_self _)
      _ ⟨_, mem_singleton_self _, rfl⟩
    exact absurd hsteady (by decide)
  -- two edges of one triple that differ in the subject's kind, where the first one decides
  · intro h
    have hagree : ∀ e ∈ [sampleEdge ['s'] ['x'], sampleEdge ['u'] ['x']],
        ∀ e' ∈ [sampleEdge ['s'] ['x'], sampleEdge ['u'] ['x']], e.Agree e' := by
      intro e he e' he'
      rcases mem_pair.mp he with rfl | rfl <;> rcases mem_pair.mp he' with rfl | rfl <;>
        exact ⟨rfl, rfl, rfl, rfl⟩
    have hsteady : ∀ e ∈ [sampleEdge ['s'] ['x'], sampleEdge ['u'] ['x']],
        @Edge.Steady asciiText e := by
      intro e he x hx
      have hevidence : e.evidence = [sampleEvidence ['x']] := by
        rcases mem_pair.mp he with rfl | rfl <;> rfl
      rw [hevidence] at hx
      rcases hx with ⟨y, hy, hyx⟩
      rw [mem_singleton.mp hy] at hyx
      cases hyx
      decide
    have hrefused : ¬ @Graph.Refused asciiText
        (sampleGraph [sampleEdge ['s'] ['x'], sampleEdge ['u'] ['x']]) := by
      rintro (hmade | ⟨e, he, e', he', -, hbad⟩)
      · refine hmade (made_sampleGraph fun e he => ?_)
        rcases mem_pair.mp he with rfl | rfl
        · exact ⟨_, rfl⟩
        · exact ⟨_, rfl⟩
      · exact hbad.elim (fun hnot => hnot (hagree e he e' he')) (fun hnot => hnot.2 (hsteady e he))
    rcases @ToldBySets.told asciiText (collisionFree []) (collisionFree_injective []) _ h hrefused
      (sampleEdge ['s'] ['x']) mem_cons_self with ⟨f, hf, hall⟩
    have htriple : (sampleEdge ['u'] ['x']).triple = f.triple := by
      rcases mem_pair.mp hf with rfl | rfl <;> rfl
    have hsame := hall (sampleEdge ['u'] ['x']) (mem_cons_of_mem _ mem_cons_self) htriple
    exact absurd (congrArg EdgeRecord.subjectKind hsame) (by decide)

end Samples

end Canonical

end Partha
