import Partha.Analysis.Authentication

/-!
# The Evidenced Guarded Subgraph

The authentication explanation is exactly the part of a snapshot that evidence ties to a
guarded route.

`Guarded` says when a route, its handler and a guard belong together, and `Calls` follows
calls that have evidence. What the builder claims is `Surfaced` by them, and what they
surface is claimed, if its node has evidence. Both are carried through the loops of the
builder: `Sound` holds of all that it has made so far, and `Covered` holds of a route and a
guard once they are processed, since later steps only add.

## Main definitions

* `Guarded`, `Calls`: The subgraph.
* `Surfaced`: What may be claimed of a node.
* `Sound`, `Covered`: The invariant of the builder, and what a guard contributes.
* `Exact`: An explanation that has the subgraph and nothing else.

## Theorems

* `processGuard_spec`, `processRoute_spec`: One guard and one route.
* `build_exact`: The builder ends, and its explanation is exact.
-/

namespace Partha

namespace Authentication

open Canonical (Str)
open Facts List

section Statements

variable (facts : ArchitectureSnapshotFacts)

/-- An edge with evidence. -/
def Link (predicate k k' : Str) : Prop :=
  ∃ edge ∈ facts.edges, edge.predicate = predicate ∧ edge.subjectKey = k ∧
    edge.objectKey = k' ∧ edgeRefs facts edge ≠ []

/-- A path of calls with evidence. -/
def Calls : Str → Str → Prop :=
  Relation.ReflTransGen (Link facts calls)

/-- A route to a handler that injects a guard, none of it in a file of tests. -/
structure Guarded (route handler guard : RiNode) : Prop where
  route_mem : route ∈ facts.nodes
  handler_mem : handler ∈ facts.nodes
  guard_mem : guard ∈ facts.nodes
  routes : Link facts routesTo route.stableKey handler.stableKey
  injects : Link facts injects handler.stableKey guard.stableKey
  route_real : definedInTestFile facts route = false
  handler_real : definedInTestFile facts handler = false
  classified : guardClassification ∈ classifications facts guard.stableKey

/-- A node that may be claimed: a guarded route as such, and otherwise a guard or a node on
    a path of calls from a guard to a service or a model. -/
def Surfaced (kind : AuthClaimKind) (node : RiNode) : Prop :=
  (kind = .route ∧ ∃ handler guard, Guarded facts node handler guard) ∨
  (kind ≠ .route ∧ ∃ route handler guard, Guarded facts route handler guard ∧
    (node = guard ∨ ∃ target, isClassified facts target = true ∧
      Calls facts guard.stableKey node.stableKey ∧ Calls facts node.stableKey target))

/-- A claim about a node, with its evidence. -/
structure About (claim : AuthClaim) (node : RiNode) : Prop where
  name : claim.name = displayName node
  evidence : claim.evidence = nodeRefs facts node
  backed : nodeRefs facts node ≠ []

/-- A relationship between the ends of an edge, with the evidence of the edge. -/
structure Renders (key : RelationshipKey) (relationship : AuthRelationship) : Prop where
  subject : ∃ node ∈ facts.nodes, node.stableKey = key.subjectKey ∧
    relationship.subject = displayName node
  predicate : relationship.predicate = key.predicate
  object : ∃ node ∈ facts.nodes, node.stableKey = key.objectKey ∧
    relationship.object = displayName node
  edge : ∃ edge ∈ facts.edges, edge.subjectKey = key.subjectKey ∧
    edge.predicate = key.predicate ∧ edge.objectKey = key.objectKey ∧
    relationship.evidence = edgeRefs facts edge ∧ edgeRefs facts edge ≠ []

/-- Calls that each start at a guard or where an earlier one ends. -/
structure Rooted (guard : Str) (keys : List RelationshipKey) : Prop where
  calls : ∀ key ∈ keys, key.predicate = calls
  grown : ∀ before key after, keys = before ++ key :: after →
    key.subjectKey = guard ∨ ∃ key' ∈ before, key'.objectKey = key.subjectKey

def routeKey (route handler : RiNode) : RelationshipKey :=
  ⟨route.stableKey, routesTo, handler.stableKey⟩

def guardKey (handler guard : RiNode) : RelationshipKey :=
  ⟨handler.stableKey, injects, guard.stableKey⟩

/-- A chain: the hop of a route, the hop of a guard, and calls from there. -/
def ChainOk (listed : List (RelationshipKey × AuthRelationship)) (chain : AuthChain) : Prop :=
  ∃ route handler guard rest, Guarded facts route handler guard ∧
    chain.route = displayName route ∧ Rooted guard.stableKey rest ∧
    List.Forall₂ (fun key hop => (key, hop) ∈ listed)
      (routeKey route handler :: guardKey handler guard :: rest) chain.hops

/-- An explanation that has the guarded subgraph and nothing else. `listed` are its
    relationships, each with the triple that it is about. -/
structure Exact (claims : List AuthClaim) (chains : List AuthChain)
    (listed : List (RelationshipKey × AuthRelationship)) : Prop where
  sound : ∀ claim ∈ claims, ∃ node ∈ facts.nodes, About facts claim node ∧
    Surfaced facts claim.kind node
  routes : ∀ route handler guard, Guarded facts route handler guard → nodeRefs facts route ≠ [] →
    ∃ claim ∈ claims, claim.kind = .route ∧ About facts claim route
  guards : ∀ route handler guard, Guarded facts route handler guard → nodeRefs facts guard ≠ [] →
    ∃ claim ∈ claims, claim.kind = .middleware ∧ About facts claim guard
  reached : ∀ route handler guard, Guarded facts route handler guard → ∀ node ∈ facts.nodes,
    isClassified facts node.stableKey = true → Calls facts guard.stableKey node.stableKey →
    nodeRefs facts node ≠ [] →
    ∃ claim ∈ claims, claimKindForRole (roleOf facts node.stableKey) = some claim.kind ∧
      About facts claim node
  once : (listed.map Prod.fst).Nodup
  rendered : ∀ p ∈ listed, Renders facts p.1 p.2
  distinct : (listed.map Prod.snd).Nodup
  chains : ∀ chain ∈ chains, ChainOk facts listed chain

end Statements

section Invariant

variable {facts : ArchitectureSnapshotFacts}

def HasClaim (facts : ArchitectureSnapshotFacts) (s : Progress) (kind : AuthClaimKind)
    (node : RiNode) : Prop :=
  ∃ claim ∈ s.claims, claim.kind = kind ∧ About facts claim node

/-- What holds of all that was made. -/
structure Sound (facts : ArchitectureSnapshotFacts) (s : Progress) : Prop where
  claims : ∀ claim ∈ s.claims, ∃ node ∈ facts.nodes, About facts claim node ∧
    Surfaced facts claim.kind node
  seen : ∀ kind key, (kind, key) ∈ s.seenClaimKeys → ∃ node ∈ facts.nodes,
    node.stableKey = key ∧ HasClaim facts s kind node
  once : (s.relationshipByKey.map Prod.fst).Nodup
  listed : s.relationships = s.relationshipByKey.map Prod.snd
  rendered : ∀ p ∈ s.relationshipByKey, Renders facts p.1 p.2
  chains : ∀ chain ∈ s.chains, ChainOk facts s.relationshipByKey chain

/-- Later steps only add. -/
structure Grows (s s' : Progress) : Prop where
  claims : ∀ claim ∈ s.claims, claim ∈ s'.claims
  listed : ∀ p ∈ s.relationshipByKey, p ∈ s'.relationshipByKey

/-- What a route and one of its guards contribute. -/
structure Covered (facts : ArchitectureSnapshotFacts) (s : Progress) (route guard : RiNode) :
    Prop where
  routed : nodeRefs facts route ≠ [] → HasClaim facts s .route route
  guarded : nodeRefs facts guard ≠ [] → HasClaim facts s .middleware guard
  reached : ∀ node ∈ facts.nodes, isClassified facts node.stableKey = true →
    Calls facts guard.stableKey node.stableKey → nodeRefs facts node ≠ [] →
    ∃ kind, claimKindForRole (roleOf facts node.stableKey) = some kind ∧ HasClaim facts s kind node

theorem Grows.refl (s : Progress) : Grows s s :=
  ⟨fun _ h => h, fun _ h => h⟩

variable {s s' : Progress} {kind : AuthClaimKind} {node : RiNode} {predicate : Str} {edge : RiEdge}

theorem Grows.trans {t u : Progress} (h : Grows s t) (h' : Grows t u) : Grows s u :=
  ⟨fun c hc => h'.claims c (h.claims c hc), fun p hp => h'.listed p (h.listed p hp)⟩

theorem HasClaim.mono (h : HasClaim facts s kind node) (hgrows : Grows s s') :
    HasClaim facts s' kind node := by
  rcases h with ⟨claim, hclaim, hprops⟩
  exact ⟨claim, hgrows.claims claim hclaim, hprops⟩

theorem Covered.mono {route guard : RiNode} (h : Covered facts s route guard)
    (hgrows : Grows s s') :
    Covered facts s' route guard := by
  refine ⟨fun hr => (h.routed hr).mono hgrows, fun hg => (h.guarded hg).mono hgrows,
    fun node hnode hclassified hcalls hrefs => ?_⟩
  rcases h.reached node hnode hclassified hcalls hrefs with ⟨kind, hkind, hclaim⟩
  exact ⟨kind, hkind, hclaim.mono hgrows⟩

theorem forall₂_grows {keys : List RelationshipKey} {hops : List AuthRelationship}
    (h : List.Forall₂ (fun key hop => (key, hop) ∈ s.relationshipByKey) keys hops)
    (hgrows : Grows s s') :
    List.Forall₂ (fun key hop => (key, hop) ∈ s'.relationshipByKey) keys hops :=
  h.imp (fun _ _ hp => hgrows.listed _ hp)

theorem mem_sorted {edges : List RiEdge} :
    edge ∈ sorted edges predicate ↔ edge ∈ edges ∧ edge.predicate = predicate := by
  rw [sorted, SortKeys.mem_sortBy, mem_filter, decide_eq_true_eq]

theorem roleOf_kind (facts : ArchitectureSnapshotFacts) (key : Str) :
    ∃ kind, claimKindForRole (roleOf facts key) = some kind ∧ kind ≠ .route := by
  unfold roleOf
  split
  · exact ⟨.middleware, rfl, by decide⟩
  split
  · exact ⟨.service, rfl, by decide⟩
  split
  · exact ⟨.model, rfl, by decide⟩
  · exact ⟨.dependency, rfl, by decide⟩

/-- A claim is made once, with the evidence of its node. -/
theorem addClaim_spec {role : AuthRelationshipNodeKind} (hrole : claimKindForRole role = some kind)
    (hnode : node ∈ facts.nodes) (hsurfaced : Surfaced facts kind node)
    (confidence : AuthConfidence) (hs : Sound facts s) :
    ∃ s', addClaim facts role node confidence s = some s' ∧ Sound facts s' ∧ Grows s s' ∧
      s'.relationshipByKey = s.relationshipByKey ∧
      (nodeRefs facts node ≠ [] → HasClaim facts s' kind node) := by
  unfold addClaim
  rw [hrole]
  by_cases hseen : s.seenClaimKeys.elem (kind, node.stableKey) = true
  · refine ⟨s, by simp only [hseen, if_true], hs, Grows.refl s, rfl, fun _ => ?_⟩
    rcases hs.seen kind node.stableKey (elem_iff.mp hseen) with ⟨node', hnode', hkey, hclaim⟩
    rw [Rows.eq_of_key_eq facts.nodes_unique hnode' hnode hkey] at hclaim
    exact hclaim
  by_cases hrefs : nodeRefs facts node = []
  · refine ⟨s, ?_, hs, Grows.refl s, rfl, fun h => absurd hrefs h⟩
    simp [hrefs]
  let claim : AuthClaim := ⟨kind, displayName node, confidence, nodeRefs facts node⟩
  have habout : About facts claim node := ⟨rfl, rfl, hrefs⟩
  have hgrows : Grows s (s.withClaim (kind, node.stableKey) claim) :=
    ⟨fun c hc => mem_append_left _ hc, fun p hp => hp⟩
  have hnew : HasClaim facts (s.withClaim (kind, node.stableKey) claim) kind node :=
    ⟨claim, mem_append_right _ (mem_singleton_self claim), rfl, habout⟩
  refine ⟨s.withClaim (kind, node.stableKey) claim, ?_,
    ⟨fun c hc => ?_, fun kind' key' hmem => ?_, hs.once, hs.listed, hs.rendered, hs.chains⟩,
    hgrows, rfl, fun _ => hnew⟩
  · simp only [hseen, hrefs, if_false, Bool.false_eq_true]
    rfl
  · rcases mem_append.mp hc with hc | hc
    · exact hs.claims c hc
    · rw [mem_singleton.mp hc]
      exact ⟨node, hnode, habout, hsurfaced⟩
  · rcases mem_cons.mp hmem with hpair | hmem
    · rw [(Prod.mk.inj hpair).1, (Prod.mk.inj hpair).2]
      exact ⟨node, hnode, rfl, hnew⟩
    · rcases hs.seen kind' key' hmem with ⟨node', hnode', hkey, hclaim⟩
      exact ⟨node', hnode', hkey, hclaim.mono hgrows⟩

theorem chainOk_mono {listed listed' : List (RelationshipKey × AuthRelationship)}
    {chain : AuthChain} (h : ChainOk facts listed chain)
    (hsub : ∀ p ∈ listed, p ∈ listed') : ChainOk facts listed' chain := by
  rcases h with ⟨route, handler, guard, rest, hguarded, hroute, hrooted, hall⟩
  exact ⟨route, handler, guard, rest, hguarded, hroute, hrooted,
    hall.imp (fun _ _ hp => hsub _ hp)⟩

theorem mem_of_lookup {κ ν : Type} [DecidableEq κ] {rows : List (κ × ν)} {k : κ} {v : ν}
    (h : rows.lookup k = some v) : (k, v) ∈ rows := by
  rcases lookup_eq_some_iff.mp h with ⟨left, right, hrows, _⟩
  rw [hrows]
  exact mem_append_right _ mem_cons_self

/-- A relationship is made once for its triple, and then given to whoever asks. -/
theorem addRelationship_spec {subject object : RiNode} (hsubject : subject ∈ facts.nodes)
    (hobject : object ∈ facts.nodes) (hedge : edge ∈ facts.edges)
    (hpredicate : edge.predicate = predicate) (hfrom : edge.subjectKey = subject.stableKey)
    (hto : edge.objectKey = object.stableKey) (hrefs : edgeRefs facts edge ≠ [])
    (subjectKind objectKind : AuthRelationshipNodeKind) (hs : Sound facts s) :
    ∃ hop s', addRelationship facts subject subjectKind predicate object objectKind edge s =
        (some hop, s') ∧ Sound facts s' ∧ Grows s s' ∧
      (⟨subject.stableKey, predicate, object.stableKey⟩, hop) ∈ s'.relationshipByKey := by
  unfold addRelationship
  rw [if_neg hrefs]
  let key : RelationshipKey := ⟨subject.stableKey, predicate, object.stableKey⟩
  let hop : AuthRelationship := ⟨displayName subject, subjectKind, predicate, displayName object,
    objectKind, edgeRefs facts edge⟩
  cases hlookup : s.relationshipByKey.lookup key with
  | some existing =>
    exact ⟨existing, s, by simp only [key, hlookup], hs, Grows.refl s, mem_of_lookup hlookup⟩
  | none =>
    have hgrows : Grows s (s.withRelationship key hop) :=
      ⟨fun c hc => hc, fun p hp => mem_append_left _ hp⟩
    have hnew : key ∉ s.relationshipByKey.map Prod.fst := by
      intro hmem
      rcases mem_map.mp hmem with ⟨p, hp, hkey⟩
      have hne := lookup_eq_none_iff.mp hlookup p hp
      rw [hkey, bne_self_eq_false] at hne
      cases hne
    refine ⟨hop, s.withRelationship key hop, by simp only [key, hlookup, hop],
      ⟨hs.claims, fun kind key' hmem => ?_, ?_, ?_, fun p hp => ?_, fun chain hchain => ?_⟩,
      hgrows, mem_append_right _ (mem_singleton_self _)⟩
    · rcases hs.seen kind key' hmem with ⟨node', hnode', hkey, hclaim⟩
      exact ⟨node', hnode', hkey, hclaim.mono hgrows⟩
    · change ((s.relationshipByKey ++ [(key, hop)]).map Prod.fst).Nodup
      rw [map_append, map_cons, map_nil, nodup_append]
      refine ⟨hs.once, nodup_singleton _, fun k hk k' hk' he => ?_⟩
      rw [mem_singleton.mp hk'] at he
      rw [he] at hk
      exact hnew hk
    · change s.relationships ++ [hop] = (s.relationshipByKey ++ [(key, hop)]).map Prod.snd
      rw [map_append, hs.listed, map_cons, map_nil]
    · rcases mem_append.mp hp with hp | hp
      · exact hs.rendered p hp
      · rw [mem_singleton.mp hp]
        exact ⟨⟨subject, hsubject, rfl, rfl⟩, rfl, ⟨object, hobject, rfl, rfl⟩,
          ⟨edge, hedge, hfrom, hpredicate, hto, rfl, hrefs⟩⟩
    · exact chainOk_mono (hs.chains chain hchain) hgrows.listed

end Invariant

section Calls

variable {facts : ArchitectureSnapshotFacts}

variable {edge : RiEdge}

theorem mem_callsOut {key : Str} :
    edge ∈ (callGraph facts).out key ↔
      edge ∈ facts.edges ∧ edge.predicate = calls ∧ edge.subjectKey = key := by
  change edge ∈ sorted (callsBySubject facts key) calls ↔ _
  rw [mem_sorted, callsBySubject, mem_filter, Bool.and_eq_true, decide_eq_true_eq,
    decide_eq_true_eq]
  constructor
  · intro h
    exact h.1
  · intro h
    exact ⟨h, h.2.1⟩

theorem usable_iff : (callGraph facts).usable edge = true ↔ edgeRefs facts edge ≠ [] := by
  change decide (edgeRefs facts edge ≠ []) = true ↔ _
  rw [decide_eq_true_eq]

/-- The search follows the calls that have evidence. -/
theorem step_eq_link : Search.Step (callGraph facts) = Link facts calls := by
  funext k k'
  refine propext ⟨fun h => ?_, fun h => ?_⟩
  · rcases h with ⟨edge, hout, husable, hto⟩
    rcases mem_callsOut.mp hout with ⟨hedge, hpredicate, hfrom⟩
    exact ⟨edge, hedge, hpredicate, hfrom, hto, usable_iff.mp husable⟩
  · rcases h with ⟨edge, hedge, hpredicate, hfrom, hto, hrefs⟩
    exact ⟨edge, mem_callsOut.mpr ⟨hedge, hpredicate, hfrom⟩, usable_iff.mpr hrefs, hto⟩

theorem reaches_eq_calls : Search.Reaches (callGraph facts) = Calls facts := by
  unfold Search.Reaches Calls
  rw [step_eq_link]

/-- The search and the walks back end, with the calls on ways to services and models. -/
theorem reachableServiceModelEdges_spec (facts : ArchitectureSnapshotFacts) (guard : RiNode) :
    ∃ l, Search.Used (callGraph facts) guard.stableKey l ∧ ∀ fuel, facts.edges.length + 1 ≤ fuel →
      reachableServiceModelEdges facts fuel guard = some l := by
  have hU : ∀ k, ∀ edge ∈ (callGraph facts).out k,
      (callGraph facts).target edge ∈ facts.edges.map RiEdge.objectKey := by
    intro k edge hedge
    exact mem_map_of_mem (mem_callsOut.mp hedge).1
  rcases Search.edgesUsed_spec hU guard.stableKey with ⟨l, hused, hfuel⟩
  refine ⟨l, hused, fun fuel hle => hfuel fuel ?_⟩
  rw [length_map]
  exact hle

/-- More fuel changes nothing. -/
theorem reachableServiceModelEdges_fuel {fuel : Nat} (hfuel : facts.edges.length + 1 ≤ fuel)
    (guard : RiNode) : reachableServiceModelEdges facts fuel guard =
      reachableServiceModelEdges facts (facts.edges.length + 1) guard := by
  rcases reachableServiceModelEdges_spec facts guard with ⟨l, _, hl⟩
  rw [hl fuel hfuel, hl _ (Nat.le_refl _)]

def hopKey (edge : RiEdge) : RelationshipKey :=
  ⟨edge.subjectKey, calls, edge.objectKey⟩

/-- What is known of an edge that adds a hop. -/
structure Hop (facts : ArchitectureSnapshotFacts) (edge : RiEdge) : Prop where
  mem : edge ∈ facts.edges
  call : edge.predicate = calls
  backed : edgeRefs facts edge ≠ []
  surfaced : ∀ node ∈ facts.nodes, node.stableKey = edge.objectKey → ∀ kind, kind ≠ .route →
    Surfaced facts kind node

theorem addHops_spec {edges : List RiEdge} (hedges : ∀ edge ∈ edges, Hop facts edge) :
    ∀ keys hops s, Sound facts s →
      List.Forall₂ (fun key hop => (key, hop) ∈ s.relationshipByKey) keys hops →
      ∃ hops' s', addHops facts edges hops s = some (hops', s') ∧ Sound facts s' ∧ Grows s s' ∧
        List.Forall₂ (fun key hop => (key, hop) ∈ s'.relationshipByKey)
          (keys ++ edges.map hopKey) hops' ∧
        ∀ edge ∈ edges, ∀ node ∈ facts.nodes, node.stableKey = edge.objectKey →
          nodeRefs facts node ≠ [] →
          ∃ kind, claimKindForRole (roleOf facts node.stableKey) = some kind ∧
            HasClaim facts s' kind node := by
  induction edges with
  | nil =>
    intro keys hops s hs hall
    refine ⟨hops, s, rfl, hs, Grows.refl s, ?_, fun edge hedge => absurd hedge not_mem_nil⟩
    rw [map_nil, append_nil]
    exact hall
  | cons edge rest ih =>
    intro keys hops s hs hall
    have hhop := hedges edge mem_cons_self
    rcases facts.subjects edge hhop.mem with ⟨subject, hsubject, hfrom⟩
    rcases facts.objects edge hhop.mem with ⟨object, hobject, hto⟩
    rcases roleOf_kind facts edge.objectKey with ⟨kind, hkind, hroute⟩
    -- the claim of the object and the relationship of this hop, and then the later hops
    rcases addClaim_spec hkind hobject (hhop.surfaced object hobject hto kind hroute)
      .heuristic hs with ⟨s₁, hadd, hs₁, hgrows₁, hlisted₁, hclaim⟩
    rcases addRelationship_spec hsubject hobject hhop.mem hhop.call hfrom.symm hto.symm
      hhop.backed (roleOf facts edge.subjectKey) (roleOf facts edge.objectKey) hs₁ with
      ⟨hop, s₂, hrelationship, hs₂, hgrows₂, hmem⟩
    have hall₂ : List.Forall₂ (fun key hop => (key, hop) ∈ s₂.relationshipByKey)
        (keys ++ [hopKey edge]) (hops ++ [hop]) := by
      refine rel_append (forall₂_grows hall (hgrows₁.trans hgrows₂))
        (List.Forall₂.cons ?_ List.Forall₂.nil)
      rw [hopKey, ← hfrom, ← hto]
      exact hmem
    rcases ih (fun edge' hedge' => hedges edge' (mem_cons_of_mem edge hedge')) _ _ s₂ hs₂
      hall₂ with ⟨hops', s', hrest, hs', hgrows', hall', hclaims⟩
    refine ⟨hops', s', ?_, hs', (hgrows₁.trans hgrows₂).trans hgrows', ?_,
      fun edge' hedge' node hnode hkey hrefs => ?_⟩
    · unfold addHops
      rw [nodeByKey_eq_some.mpr ⟨hsubject, hfrom⟩, nodeByKey_eq_some.mpr ⟨hobject, hto⟩]
      simp [hadd, hrelationship, hrest]
    · rw [map_cons, ← singleton_append, ← append_assoc]
      exact hall'
    · rcases mem_cons.mp hedge' with hedge' | hedge'
      -- the claim of the first hop's object stays with all that is added later
      · rw [hedge'] at hkey
        have hsame : node = object :=
          Rows.eq_of_key_eq facts.nodes_unique hnode hobject (hkey.trans hto.symm)
        rw [hsame] at hrefs ⊢
        rw [hto]
        exact ⟨kind, hkind, (hclaim hrefs).mono (hgrows₂.trans hgrows')⟩
      · exact hclaims edge' hedge' node hnode hkey hrefs

end Calls

section Processing

variable {facts : ArchitectureSnapshotFacts} {fuel : Nat}

variable {route handler guard : RiNode} {l edges : List RiEdge} {routeEdge : RiEdge} {s : Progress}

/-- The edges that the search leaves are hops of a chain. -/
theorem used_hops (hguarded : Guarded facts route handler guard)
    (hused : Search.Used (callGraph facts) guard.stableKey l) : ∀ edge ∈ l, Hop facts edge := by
  intro edge hedge
  rcases hused.edges edge hedge with ⟨husable, hout, hreach, target, hwanted, hway⟩
  rcases mem_callsOut.mp hout with ⟨hmem, hcall, hfrom⟩
  have hbacked := usable_iff.mp husable
  rw [reaches_eq_calls] at hreach hway
  refine ⟨hmem, hcall, hbacked, fun node _ hkey kind hkind => .inr ⟨hkind, route, handler, guard,
    hguarded, .inr ⟨target, hwanted, ?_, ?_⟩⟩⟩
  · rw [hkey]
    exact Relation.ReflTransGen.tail hreach ⟨edge, hmem, hcall, hfrom, rfl, hbacked⟩
  · rw [hkey]
    exact hway

theorem rooted_used {guard : Str} (hused : Search.Used (callGraph facts) guard l) :
    Rooted guard (l.map hopKey) := by
  refine ⟨fun key hkey => ?_, fun before key after hsplit => ?_⟩
  · rcases mem_map.mp hkey with ⟨edge, _, he⟩
    rw [← he]
    rfl
  · rcases map_eq_append_iff.mp hsplit with ⟨left, right, hl, hleft, hright⟩
    rcases map_eq_cons_iff.mp hright with ⟨edge, rest, hr, hedge, _⟩
    rw [hr] at hl
    rw [← hedge]
    rcases hused.grown left edge rest hl with hroot | ⟨edge', hedge', hto⟩
    · exact .inl hroot
    · refine .inr ⟨hopKey edge', ?_, hto⟩
      rw [← hleft]
      exact mem_map_of_mem hedge'

theorem kind_of_guard {key : Str} (h : guardClassification ∈ classifications facts key) :
    claimKindForRole (roleOf facts key) = some .middleware := by
  unfold roleOf
  rw [if_pos (elem_iff.mpr h)]
  rfl

/-- A guard with evidence: its claims, and one chain. -/
theorem processGuard_spec (hfuel : facts.edges.length + 1 ≤ fuel)
    (hguarded : Guarded facts route handler guard) {guardEdge : RiEdge}
    (hroute : routeEdge ∈ facts.edges ∧ routeEdge.predicate = routesTo ∧
      routeEdge.subjectKey = route.stableKey ∧ routeEdge.objectKey = handler.stableKey ∧
      edgeRefs facts routeEdge ≠ [])
    (hguard : guardEdge ∈ facts.edges ∧ guardEdge.predicate = injects ∧
      guardEdge.subjectKey = handler.stableKey ∧ guardEdge.objectKey = guard.stableKey ∧
      edgeRefs facts guardEdge ≠ []) (hs : Sound facts s) :
    ∃ s', processGuard facts fuel route handler routeEdge guardEdge s = some s' ∧
      Sound facts s' ∧ Grows s s' ∧ Covered facts s' route guard := by
  rcases reachableServiceModelEdges_spec facts guard with ⟨l, hused, hl⟩
  rcases addClaim_spec (show claimKindForRole .route = some .route from rfl) hguarded.route_mem
    (.inl ⟨rfl, handler, guard, hguarded⟩) .observed hs with
    ⟨s₁, hadd₁, hs₁, hgrows₁, _, hclaim₁⟩
  rcases addClaim_spec (show claimKindForRole .middleware = some .middleware from rfl)
    hguarded.guard_mem (.inr ⟨by decide, route, handler, guard, hguarded, .inl rfl⟩)
    .heuristic hs₁ with
    ⟨s₂, hadd₂, hs₂, hgrows₂, _, hclaim₂⟩
  rcases addRelationship_spec hguarded.route_mem hguarded.handler_mem hroute.1 hroute.2.1
    hroute.2.2.1 hroute.2.2.2.1 hroute.2.2.2.2 .route .handler hs₂ with
    ⟨hop, s₃, hadd₃, hs₃, hgrows₃, hmem₃⟩
  rcases addRelationship_spec hguarded.handler_mem hguarded.guard_mem hguard.1 hguard.2.1
    hguard.2.2.1 hguard.2.2.2.1 hguard.2.2.2.2 .handler .middleware hs₃ with
    ⟨hop', s₄, hadd₄, hs₄, hgrows₄, hmem₄⟩
  have hall : List.Forall₂ (fun key hop => (key, hop) ∈ s₄.relationshipByKey)
      [routeKey route handler, guardKey handler guard] [hop, hop'] :=
    List.Forall₂.cons (hgrows₄.listed _ hmem₃) (List.Forall₂.cons hmem₄ List.Forall₂.nil)
  rcases addHops_spec (used_hops hguarded hused) _ _ s₄ hs₄ hall with
    ⟨hops, s₅, hadd₅, hs₅, hgrows₅, hall₅, hclaims⟩
  have hne : hops ≠ [] := by
    intro hnil
    rw [hnil] at hall₅
    cases hall₅
  have hgrows : Grows s₂ (s₅.withChain ⟨displayName route, hops⟩) :=
    ((hgrows₃.trans hgrows₄).trans hgrows₅).trans ⟨fun _ h => h, fun _ h => h⟩
  refine ⟨s₅.withChain ⟨displayName route, hops⟩, ?_, ?_, (hgrows₁.trans hgrows₂).trans hgrows,
    ⟨fun h => ((hclaim₁ h).mono hgrows₂).mono hgrows, fun h => (hclaim₂ h).mono hgrows,
      fun node hnode hclassified hcalls hrefs => ?_⟩⟩
  · unfold processGuard
    rw [nodeByKey_eq_some.mpr ⟨hguarded.guard_mem, hguard.2.2.2.1.symm⟩]
    simp [hguard.2.2.2.2, hl fuel hfuel, hadd₁, hadd₂, hadd₃, hadd₄, hadd₅, hne]
  · refine ⟨hs₅.claims, hs₅.seen, hs₅.once, hs₅.listed, hs₅.rendered, fun chain hchain => ?_⟩
    rcases mem_append.mp hchain with hchain | hchain
    · exact hs₅.chains chain hchain
    · rw [mem_singleton.mp hchain]
      exact ⟨route, handler, guard, l.map hopKey, hguarded, rfl, rooted_used hused, hall₅⟩
  · -- The guard itself is claimed as one; any other node ends an edge that is used.
    by_cases hself : node.stableKey = guard.stableKey
    · have hsame := Rows.eq_of_key_eq facts.nodes_unique hnode hguarded.guard_mem hself
      rw [hsame] at hrefs ⊢
      exact ⟨.middleware, kind_of_guard hguarded.classified, (hclaim₂ hrefs).mono hgrows⟩
    · rcases hused.complete node.stableKey hclassified (by
        rw [reaches_eq_calls]
        exact hcalls) hself with ⟨edge, hedge, hto⟩
      rcases hclaims edge hedge node hnode hto.symm hrefs with ⟨kind, hkind, hclaim⟩
      exact ⟨kind, hkind, hclaim.mono ⟨fun _ h => h, fun _ h => h⟩⟩

theorem processGuards_spec (hfuel : facts.edges.length + 1 ≤ fuel)
    (hmem : route ∈ facts.nodes ∧ handler ∈ facts.nodes)
    (hreal : definedInTestFile facts route = false ∧ definedInTestFile facts handler = false)
    (hroute : routeEdge ∈ facts.edges ∧ routeEdge.predicate = routesTo ∧
      routeEdge.subjectKey = route.stableKey ∧ routeEdge.objectKey = handler.stableKey ∧
      edgeRefs facts routeEdge ≠ [])
    (hedges : ∀ edge ∈ edges, edge ∈ facts.edges ∧ edge.predicate = injects ∧
      edge.subjectKey = handler.stableKey ∧
      guardClassification ∈ classifications facts edge.objectKey) :
    ∀ {s : Progress}, Sound facts s →
      ∃ s', processGuards facts fuel route handler routeEdge edges s = some s' ∧
        Sound facts s' ∧ Grows s s' ∧ ∀ edge ∈ edges, edgeRefs facts edge ≠ [] →
          ∀ guard ∈ facts.nodes, guard.stableKey = edge.objectKey →
            Covered facts s' route guard := by
  induction edges with
  | nil =>
    intro s hs
    exact ⟨s, rfl, hs, Grows.refl s, fun edge hedge => absurd hedge not_mem_nil⟩
  | cons edge rest ih =>
    intro s hs
    have hedge := hedges edge mem_cons_self
    rcases facts.objects edge hedge.1 with ⟨guard, hguard, hto⟩
    -- an edge without references is skipped; any other makes the guard's path and evidence
    have hone : ∃ s₁, processGuard facts fuel route handler routeEdge edge s = some s₁ ∧
        Sound facts s₁ ∧ Grows s s₁ ∧ (edgeRefs facts edge ≠ [] →
          Covered facts s₁ route guard) := by
      by_cases hrefs : edgeRefs facts edge = []
      · refine ⟨s, ?_, hs, Grows.refl s, fun h => absurd hrefs h⟩
        unfold processGuard
        rw [nodeByKey_eq_some.mpr ⟨hguard, hto⟩]
        simp [hrefs]
      · have hguarded : Guarded facts route handler guard := {
          route_mem := hmem.1
          handler_mem := hmem.2
          guard_mem := hguard
          routes := ⟨routeEdge, hroute⟩
          injects := ⟨edge, hedge.1, hedge.2.1, hedge.2.2.1, hto.symm, hrefs⟩
          route_real := hreal.1
          handler_real := hreal.2
          classified := by
            rw [hto]
            exact hedge.2.2.2 }
        rcases processGuard_spec hfuel hguarded hroute
          ⟨hedge.1, hedge.2.1, hedge.2.2.1, hto.symm, hrefs⟩ hs with
          ⟨s₁, hprocess, hs₁, hgrows₁, hcovered⟩
        exact ⟨s₁, hprocess, hs₁, hgrows₁, fun _ => hcovered⟩
    rcases hone with ⟨s₁, hprocess, hs₁, hgrows₁, hcovered⟩
    -- the later edges only add to the progress, so what this one covered stays covered
    rcases ih (fun edge' hedge' => hedges edge' (mem_cons_of_mem edge hedge')) hs₁ with
      ⟨s', hrest, hs', hgrows', hall⟩
    refine ⟨s', ?_, hs', hgrows₁.trans hgrows', fun edge' hedge' hrefs guard' hguard' hkey => ?_⟩
    · unfold processGuards
      rw [hprocess, Option.bind_some, hrest]
    · rcases mem_cons.mp hedge' with hedge' | hedge'
      · rw [hedge'] at hrefs hkey
        rw [Rows.eq_of_key_eq facts.nodes_unique hguard' hguard (hkey.trans hto.symm)]
        exact (hcovered hrefs).mono hgrows'
      · exact hall edge' hedge' hrefs guard' hguard' hkey

theorem mem_guardEdges {edge : RiEdge} :
    edge ∈ guardEdges facts handler ↔ edge ∈ facts.edges ∧ edge.predicate = injects ∧
      edge.subjectKey = handler.stableKey ∧
      guardClassification ∈ classifications facts edge.objectKey := by
  rw [guardEdges, mem_filter, mem_sorted, injectsBySubject, mem_filter, Bool.and_eq_true,
    decide_eq_true_eq, decide_eq_true_eq, elem_iff]
  constructor
  · intro h
    exact ⟨h.1.1.1, h.1.1.2.1, h.1.1.2.2, h.2⟩
  · intro h
    exact ⟨⟨⟨h.1, h.2.1, h.2.2.1⟩, h.2.1⟩, h.2.2.2⟩

/-- One route with its guards. -/
theorem processRoute_spec (hfuel : facts.edges.length + 1 ≤ fuel) (hedge : routeEdge ∈ facts.edges)
    (hpredicate : routeEdge.predicate = routesTo) (hs : Sound facts s) :
    ∃ s', processRoute facts fuel routeEdge s = some s' ∧ Sound facts s' ∧ Grows s s' ∧
      ∀ route handler guard, Guarded facts route handler guard →
        routeEdge.subjectKey = route.stableKey → routeEdge.objectKey = handler.stableKey →
        edgeRefs facts routeEdge ≠ [] → Covered facts s' route guard := by
  rcases facts.subjects routeEdge hedge with ⟨route, hroute, hfrom⟩
  rcases facts.objects routeEdge hedge with ⟨handler, hhandler, hto⟩
  have hroute_eq : ∀ route' ∈ facts.nodes, routeEdge.subjectKey = route'.stableKey →
      route' = route := fun route' hroute' he =>
    Rows.eq_of_key_eq facts.nodes_unique hroute' hroute (he.symm.trans hfrom.symm)
  have hhandler_eq : ∀ handler' ∈ facts.nodes, routeEdge.objectKey = handler'.stableKey →
      handler' = handler := fun handler' hhandler' he =>
    Rows.eq_of_key_eq facts.nodes_unique hhandler' hhandler (he.symm.trans hto.symm)
  unfold processRoute
  rw [nodeByKey_eq_some.mpr ⟨hroute, hfrom⟩, nodeByKey_eq_some.mpr ⟨hhandler, hto⟩]
  by_cases htest : (definedInTestFile facts route || definedInTestFile facts handler) = true
  · refine ⟨s, by simp [htest], hs, Grows.refl s,
      fun route' handler' guard hguarded hr hh _ => ?_⟩
    rw [← hroute_eq route' hguarded.route_mem hr, ← hhandler_eq handler' hguarded.handler_mem hh,
      hguarded.route_real, hguarded.handler_real] at htest
    cases htest
  by_cases hrefs : edgeRefs facts routeEdge = []
  · refine ⟨s, ?_, hs, Grows.refl s, fun _ _ _ _ _ _ h => absurd hrefs h⟩
    simp [htest, hrefs]
  · rcases Bool.or_eq_false_iff.mp (Bool.not_eq_true _ ▸ htest) with ⟨hreal, hreal'⟩
    rcases processGuards_spec hfuel ⟨hroute, hhandler⟩ ⟨hreal, hreal'⟩
      ⟨hedge, hpredicate, hfrom.symm, hto.symm, hrefs⟩
      (fun edge h => mem_guardEdges.mp h) hs with ⟨s', hprocess, hs', hgrows, hcovered⟩
    refine ⟨s', ?_, hs', hgrows, fun route' handler' guard hguarded hr hh _ => ?_⟩
    · simp only [htest, hrefs, if_false, Bool.false_eq_true]
      exact hprocess
    · rw [hroute_eq route' hguarded.route_mem hr]
      rcases hguarded.injects with ⟨edge, hmem, hinjects, hsubject, hobject, hbacked⟩
      rw [hhandler_eq handler' hguarded.handler_mem hh] at hsubject
      refine hcovered edge (mem_guardEdges.mpr ⟨hmem, hinjects, hsubject, ?_⟩) hbacked guard
        hguarded.guard_mem hobject.symm
      rw [hobject]
      exact hguarded.classified

theorem processRoutes_spec (hfuel : facts.edges.length + 1 ≤ fuel)
    (hedges : ∀ edge ∈ edges, edge ∈ facts.edges ∧ edge.predicate = routesTo) :
    ∀ {s : Progress}, Sound facts s →
      ∃ s', processRoutes facts fuel edges s = some s' ∧ Sound facts s' ∧ Grows s s' ∧
        ∀ edge ∈ edges, ∀ route handler guard, Guarded facts route handler guard →
          edge.subjectKey = route.stableKey → edge.objectKey = handler.stableKey →
          edgeRefs facts edge ≠ [] → Covered facts s' route guard := by
  induction edges with
  | nil =>
    intro s hs
    exact ⟨s, rfl, hs, Grows.refl s, fun edge hedge => absurd hedge not_mem_nil⟩
  | cons edge rest ih =>
    intro s hs
    have hedge := hedges edge mem_cons_self
    rcases processRoute_spec hfuel hedge.1 hedge.2 hs with ⟨s₁, hprocess, hs₁, hgrows₁, hcovered⟩
    rcases ih (fun edge' hedge' => hedges edge' (mem_cons_of_mem edge hedge')) hs₁ with
      ⟨s', hrest, hs', hgrows', hall⟩
    refine ⟨s', ?_, hs', hgrows₁.trans hgrows',
      fun edge' hedge' route handler guard hguarded hr hh hrefs => ?_⟩
    · unfold processRoutes
      rw [hprocess, Option.bind_some, hrest]
    · rcases mem_cons.mp hedge' with hedge' | hedge'
      · rw [hedge'] at hr hh hrefs
        exact (hcovered route handler guard hguarded hr hh hrefs).mono hgrows'
      · exact hall edge' hedge' route handler guard hguarded hr hh hrefs

theorem sound_noProgress (facts : ArchitectureSnapshotFacts) : Sound facts noProgress where
  claims := fun _ h => absurd h not_mem_nil
  seen := fun _ _ h => absurd h not_mem_nil
  once := nodup_nil
  listed := rfl
  rendered := fun _ h => absurd h not_mem_nil
  chains := fun _ h => absurd h not_mem_nil

/-- The evidence of a relationship names its edge, so no two are the same. -/
theorem distinct_rendered {listed : List (RelationshipKey × AuthRelationship)}
    (honce : (listed.map Prod.fst).Nodup) (hrendered : ∀ p ∈ listed, Renders facts p.1 p.2) :
    (listed.map Prod.snd).Nodup := by
  refine List.Nodup.map_on (fun p hp q hq he => ?_) honce.of_map
  rcases (hrendered p hp).edge with ⟨edge, hedge, hfrom, hpredicate, hto, hrefs, hbacked⟩
  rcases (hrendered q hq).edge with ⟨edge', hedge', hfrom', hpredicate', hto', hrefs', _⟩
  rw [he, hrefs'] at hrefs
  have hid : edge'.edgeId = edge.edgeId := by
    rcases exists_cons_of_ne_nil hbacked with ⟨ref, refs, hcons⟩
    rw [hcons] at hrefs
    have hhead : ref.factId = edge.edgeId := by
      have hmem : ref ∈ edgeRefs facts edge := by
        rw [hcons]
        exact mem_cons_self
      rcases mem_map.mp hmem with ⟨item, _, hitem⟩
      rw [← hitem]
    have hmem : ref ∈ edgeRefs facts edge' := by
      rw [hrefs]
      exact mem_cons_self
    rcases mem_map.mp hmem with ⟨item, _, hitem⟩
    rw [← hhead, ← hitem]
  have hsame : edge' = edge := Rows.eq_of_key_eq facts.edges_unique hedge' hedge hid
  rw [hsame] at hfrom' hpredicate' hto'
  refine Rows.eq_of_key_eq honce hp hq ?_
  exact RelationshipKey.ext (hfrom.symm.trans hfrom') (hpredicate.symm.trans hpredicate')
    (hto.symm.trans hto')

end Processing

section Fuel

variable {facts : ArchitectureSnapshotFacts} {fuel : Nat}

theorem processGuard_fuel (hfuel : facts.edges.length + 1 ≤ fuel) (route handler : RiNode)
    (routeEdge guardEdge : RiEdge) (s : Progress) :
    processGuard facts fuel route handler routeEdge guardEdge s =
      processGuard facts (facts.edges.length + 1) route handler routeEdge guardEdge s := by
  unfold processGuard
  simp only [reachableServiceModelEdges_fuel hfuel]

theorem processGuards_fuel (hfuel : facts.edges.length + 1 ≤ fuel) (route handler : RiNode)
    (routeEdge : RiEdge) (edges : List RiEdge) :
    processGuards facts fuel route handler routeEdge edges =
      processGuards facts (facts.edges.length + 1) route handler routeEdge edges := by
  induction edges with
  | nil => rfl
  | cons edge rest ih =>
    funext s
    unfold processGuards
    rw [processGuard_fuel hfuel, ih]

theorem processRoutes_fuel (hfuel : facts.edges.length + 1 ≤ fuel) (edges : List RiEdge) :
    processRoutes facts fuel edges = processRoutes facts (facts.edges.length + 1) edges := by
  induction edges with
  | nil => rfl
  | cons edge rest ih =>
    funext s
    have hroute : processRoute facts fuel edge s =
        processRoute facts (facts.edges.length + 1) edge s := by
      unfold processRoute
      simp only [processGuards_fuel hfuel]
    unfold processRoutes
    rw [hroute, ih]

end Fuel

section Results

/-- Building ends, with this response, whatever fuel there is from some amount on. -/
def Explains (facts : ArchitectureSnapshotFacts) (record : RepositoryRecord)
    (response : AuthenticationExplanationResponse) : Prop :=
  ∀ fuel, facts.edges.length + 1 ≤ fuel → build facts fuel record = some response

/-- For every snapshot the explanation is built, and it is exactly the evidenced guarded
    subgraph. -/
theorem build_exact (facts : ArchitectureSnapshotFacts) (record : RepositoryRecord) :
    ∃ response listed, Explains facts record response ∧
      response.relationships = listed.map Prod.snd ∧
      Exact facts response.claims response.chains listed := by
  rcases processRoutes_spec (Nat.le_refl (facts.edges.length + 1))
    (fun edge h => mem_sorted.mp h) (sound_noProgress facts) with
    ⟨s, hprocess, hs, _, hcovered⟩
  have hpair : ∀ route handler guard, Guarded facts route handler guard →
      Covered facts s route guard := by
    intro route handler guard hguarded
    rcases hguarded.routes with ⟨edge, hmem, hpredicate, hfrom, hto, hrefs⟩
    exact hcovered edge (mem_sorted.mpr ⟨hmem, hpredicate⟩) route handler guard hguarded hfrom hto
      hrefs
  refine ⟨respond facts record s, s.relationshipByKey, fun fuel hfuel => ?_, ?_, ?_⟩
  · unfold build
    rw [processRoutes_fuel hfuel, hprocess, Option.map_some]
  · exact hs.listed
  · refine ⟨hs.claims, fun route handler guard hguarded =>
      (hpair route handler guard hguarded).routed, fun route handler guard hguarded =>
      (hpair route handler guard hguarded).guarded,
      fun route handler guard hguarded node hnode hclassified hcalls hrefs => ?_, hs.once,
      hs.rendered, distinct_rendered hs.once hs.rendered, hs.chains⟩
    rcases (hpair route handler guard hguarded).reached node hnode hclassified hcalls hrefs with
      ⟨kind, hkind, claim, hclaim, hsame, habout⟩
    exact ⟨claim, hclaim, by rw [hsame]; exact hkind, habout⟩

end Results

end Authentication

end Partha
