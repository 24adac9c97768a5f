import Partha.Analysis.SnapshotFacts
import Partha.Library.Search

/-!
# The Authentication Explanation

`_AuthenticationSubgraphBuilder`, which claims the routes that reach a guard, the guards,
and what the guards call on the way to a service or a model.

A guard is a symbol that a handler injects and that is classified as one. From a guard the
builder searches the calls that have evidence, breadth first, and keeps the edges of its
search tree that lead to a symbol classified as a service or a model. Claims and
relationships are made once, and a chain has every relationship of its route, whether it was
made for this route or for an earlier one.

The search and the walk back from what it found are loops. They take fuel, and an explanation
that would need more is `none`, as is one for which a `ValueError` is raised.

## Main definitions

* `processGuard`, `processRoute`: What a route and one of its guards contribute.
* `build`: The explanation of the facts.
* `explain`: The same, if there is a snapshot.
-/

namespace Partha

namespace Authentication

open Canonical (Str)
open Facts
open SortKeys (sortBy codePoints)

inductive AuthClaimKind where
  | route
  | middleware
  | service
  | model
  | dependency
  deriving DecidableEq, Repr

inductive AuthRelationshipNodeKind where
  | route
  | handler
  | middleware
  | service
  | model
  | dependency
  deriving DecidableEq, Repr

inductive AuthConfidence where
  | observed
  | heuristic
  deriving DecidableEq, Repr

structure AuthEvidenceRef where
  snapshotId : Str
  factId : Str
  path : Str
  startLine : Nat
  endLine : Nat
  deriving DecidableEq, Repr

structure AuthClaim where
  kind : AuthClaimKind
  name : Str
  confidence : AuthConfidence
  evidence : List AuthEvidenceRef
  deriving DecidableEq, Repr

structure AuthRelationship where
  subject : Str
  subjectKind : AuthRelationshipNodeKind
  predicate : Str
  object : Str
  objectKind : AuthRelationshipNodeKind
  evidence : List AuthEvidenceRef
  deriving DecidableEq, Repr

structure AuthChain where
  route : Str
  hops : List AuthRelationship
  deriving DecidableEq, Repr

structure AuthenticationDiagnostic where
  code : Str
  category : Str
  severity : Insights.StoredSeverity
  message : Str
  path : Option Str
  startLine : Option Nat
  endLine : Option Nat
  deriving DecidableEq, Repr

inductive AuthStatus where
  | ready
  | missingSnapshot
  deriving DecidableEq, Repr

structure AuthenticationExplanationResponse where
  schemaVersion : Str
  repositoryId : Str
  repositoryName : Str
  revisionKind : Option Str
  revisionValue : Option Str
  snapshotId : Option Str
  status : AuthStatus
  summary : Str
  claims : List AuthClaim
  relationships : List AuthRelationship
  chains : List AuthChain
  diagnostics : List AuthenticationDiagnostic
  deriving DecidableEq, Repr

/-- The columns of the repository that are shown. -/
structure RepositoryRecord where
  id : Str
  name : Str
  revisionKind : Option Str
  revisionValue : Option Str
  deriving DecidableEq, Repr

section Constants

def guardClassification : Str := "auth_dependency".toList

def serviceClassification : Str := "service".toList

def modelClassification : Str := "model".toList

def testFileRole : Str := "test".toList

def routesTo : Str := "routes_to".toList

def injects : Str := "injects".toList

def calls : Str := "calls".toList

/-- `_DIAGNOSTIC_CODES`. -/
def diagnosticCodes : List Str :=
  ["RI-RES-UNRESOLVED".toList, "RI-RES-AMBIGUOUS".toList, "RI-EXT-UNSUPPORTED".toList,
    "RI-SRC-MALFORMED".toList]

def maxDiagnostics : Nat := 50

def schemaVersion : Str := "auth-explanation.v1".toList

end Constants

section Builder

/-- `_display_name`. -/
def displayName (node : RiNode) : Str :=
  let named := if node.name.getD [] = [] then node.stableKey else node.name.getD []
  if node.nodeKind = "symbol".toList then node.routePath.getD named else named

variable (facts : ArchitectureSnapshotFacts)

/-- `_node_evidence`. -/
def nodeRefs (node : RiNode) : List AuthEvidenceRef :=
  (facts.nodeEvidence node.id).map fun item =>
    ⟨facts.snapshotId, node.stableKey, item.path, item.startLine, item.endLine⟩

/-- `_edge_evidence`. -/
def edgeRefs (edge : RiEdge) : List AuthEvidenceRef :=
  (facts.edgeEvidence edge.id).map fun item =>
    ⟨facts.snapshotId, edge.edgeId, item.path, item.startLine, item.endLine⟩

/-- `_defined_in_test_file`. -/
def definedInTestFile (node : RiNode) : Bool :=
  (facts.nodeEvidence node.id).any (fun item => fileRole facts item.path = some testFileRole)

/-- What `_sorted` compares. -/
def sortKey (edge : RiEdge) : List (List Nat) :=
  [codePoints edge.subjectKey, codePoints edge.objectKey, codePoints edge.edgeId]

/-- `_sorted`. -/
def sorted (edges : List RiEdge) (predicate : Str) : List RiEdge :=
  sortBy sortKey (edges.filter (fun edge => edge.predicate = predicate))

def injectsBySubject (key : Str) : List RiEdge :=
  facts.edges.filter (fun edge => edge.predicate = injects && edge.subjectKey = key)

def callsBySubject (key : Str) : List RiEdge :=
  facts.edges.filter (fun edge => edge.predicate = calls && edge.subjectKey = key)

/-- A symbol that the explanation follows calls to. -/
def isClassified (key : Str) : Bool :=
  (classifications facts key).elem serviceClassification ||
    (classifications facts key).elem modelClassification

theorem callsBySubject_subject (key : Str) :
    ∀ edge ∈ sorted (callsBySubject facts key) calls, edge.subjectKey = key := by
  intro edge hedge
  have hmem := (List.mem_filter.mp (SortKeys.mem_sortBy.mp hedge)).1
  have hprops := (List.mem_filter.mp hmem).2
  rw [Bool.and_eq_true, decide_eq_true_eq, decide_eq_true_eq] at hprops
  exact hprops.2

/-- The calls that `_reachable_service_model_edges` searches. -/
def callGraph : Search.Graph Str RiEdge where
  out := fun key => sorted (callsBySubject facts key) calls
  source := RiEdge.subjectKey
  target := RiEdge.objectKey
  usable := fun edge => edgeRefs facts edge ≠ []
  wanted := isClassified facts
  out_source := callsBySubject_subject facts

/-- `_reachable_service_model_edges`. -/
def reachableServiceModelEdges (fuel : Nat) (guardNode : RiNode) : Option (List RiEdge) :=
  Search.edgesUsed (callGraph facts) fuel guardNode.stableKey

/-- `_role_of`. -/
def roleOf (key : Str) : AuthRelationshipNodeKind :=
  if (classifications facts key).elem guardClassification then .middleware
  else if (classifications facts key).elem serviceClassification then .service
  else if (classifications facts key).elem modelClassification then .model
  else .dependency

/-- `_claim_kind_for_role`. A handler is never a claim kind. -/
def claimKindForRole : AuthRelationshipNodeKind → Option AuthClaimKind
  | .route => some .route
  | .handler => none
  | .middleware => some .middleware
  | .service => some .service
  | .model => some .model
  | .dependency => some .dependency

/-- The key that a relationship is made once for. -/
@[ext]
structure RelationshipKey where
  subjectKey : Str
  predicate : Str
  objectKey : Str
  deriving DecidableEq, Repr

/-- What the builder has made. -/
structure Progress where
  claims : List AuthClaim
  seenClaimKeys : List (AuthClaimKind × Str)
  relationships : List AuthRelationship
  relationshipByKey : List (RelationshipKey × AuthRelationship)
  chains : List AuthChain
  deriving DecidableEq, Repr

/-- A claim is made, and its key is seen. -/
def Progress.withClaim (s : Progress) (key : AuthClaimKind × Str) (claim : AuthClaim) : Progress :=
  { s with
    seenClaimKeys := key :: s.seenClaimKeys
    claims := s.claims ++ [claim] }

/-- A relationship is listed under its key. -/
def Progress.withRelationship (s : Progress) (key : RelationshipKey)
    (relationship : AuthRelationship) : Progress :=
  { s with
    relationshipByKey := s.relationshipByKey ++ [(key, relationship)]
    relationships := s.relationships ++ [relationship] }

def Progress.withChain (s : Progress) (chain : AuthChain) : Progress :=
  { s with chains := s.chains ++ [chain] }

/-- `_add_claim`. -/
def addClaim (role : AuthRelationshipNodeKind) (node : RiNode) (confidence : AuthConfidence)
    (s : Progress) : Option Progress :=
  match claimKindForRole role with
  | none => none
  | some kind =>
    if s.seenClaimKeys.elem (kind, node.stableKey) then some s
    else if nodeRefs facts node = [] then some s
    else some (s.withClaim (kind, node.stableKey)
      ⟨kind, displayName node, confidence, nodeRefs facts node⟩)

/-- `_add_relationship`. -/
def addRelationship (subject : RiNode) (subjectKind : AuthRelationshipNodeKind) (predicate : Str)
    (object : RiNode) (objectKind : AuthRelationshipNodeKind) (edge : RiEdge) (s : Progress) :
    Option AuthRelationship × Progress :=
  if edgeRefs facts edge = [] then (none, s)
  else
    let key : RelationshipKey := ⟨subject.stableKey, predicate, object.stableKey⟩
    match s.relationshipByKey.lookup key with
    | some existing => (some existing, s)
    | none =>
      let relationship : AuthRelationship :=
        ⟨displayName subject, subjectKind, predicate, displayName object, objectKind,
          edgeRefs facts edge⟩
      (some relationship, s.withRelationship key relationship)

/-- The hops that the used edges add to a chain. -/
def addHops : List RiEdge → List AuthRelationship → Progress →
    Option (List AuthRelationship × Progress)
  | [], hops, s => some (hops, s)
  | edge :: rest, hops, s =>
    match nodeByKey facts edge.subjectKey, nodeByKey facts edge.objectKey with
    | some subject, some object =>
      (addClaim facts (roleOf facts edge.objectKey) object .heuristic s).bind fun s =>
        let added := addRelationship facts subject (roleOf facts edge.subjectKey) calls object
          (roleOf facts edge.objectKey) edge s
        addHops rest (hops ++ added.1.toList) added.2
    | _, _ => addHops rest hops s

/-- `_process_guard`. -/
def processGuard (fuel : Nat) (routeNode handlerNode : RiNode) (routeEdge guardEdge : RiEdge)
    (s : Progress) : Option Progress :=
  match nodeByKey facts guardEdge.objectKey with
  | none => some s
  | some guardNode =>
    if edgeRefs facts guardEdge = [] then some s
    else do
      let usedEdges ← reachableServiceModelEdges facts fuel guardNode
      let s ← addClaim facts .route routeNode .observed s
      let s ← addClaim facts .middleware guardNode .heuristic s
      let routeHop := addRelationship facts routeNode .route routesTo handlerNode .handler
        routeEdge s
      let guardHop := addRelationship facts handlerNode .handler injects guardNode .middleware
        guardEdge routeHop.2
      let added ← addHops facts usedEdges (routeHop.1.toList ++ guardHop.1.toList) guardHop.2
      if added.1 = [] then some added.2
      else some (added.2.withChain ⟨displayName routeNode, added.1⟩)

/-- The guards of a route, one after the other. -/
def processGuards (fuel : Nat) (routeNode handlerNode : RiNode) (routeEdge : RiEdge) :
    List RiEdge → Progress → Option Progress
  | [], s => some s
  | guardEdge :: rest, s =>
    (processGuard facts fuel routeNode handlerNode routeEdge guardEdge s).bind
      (processGuards fuel routeNode handlerNode routeEdge rest)

def guardEdges (handlerNode : RiNode) : List RiEdge :=
  (sorted (injectsBySubject facts handlerNode.stableKey) injects).filter
    (fun edge => (classifications facts edge.objectKey).elem guardClassification)

/-- `_process_route`. -/
def processRoute (fuel : Nat) (routeEdge : RiEdge) (s : Progress) : Option Progress :=
  match nodeByKey facts routeEdge.subjectKey, nodeByKey facts routeEdge.objectKey with
  | some routeNode, some handlerNode =>
    if definedInTestFile facts routeNode || definedInTestFile facts handlerNode then some s
    else if edgeRefs facts routeEdge = [] then some s
    else processGuards facts fuel routeNode handlerNode routeEdge (guardEdges facts handlerNode) s
  | _, _ => some s

def processRoutes (fuel : Nat) : List RiEdge → Progress → Option Progress
  | [], s => some s
  | routeEdge :: rest, s => (processRoute facts fuel routeEdge s).bind (processRoutes fuel rest)

def noProgress : Progress :=
  ⟨[], [], [], [], []⟩

def shownDiagnostics : List AuthenticationDiagnostic :=
  ((facts.diagnostics.filter (fun d => diagnosticCodes.elem d.code)).take maxDiagnostics).map
    fun d => ⟨d.code, d.category, d.severity, d.message, d.path, d.spanStartLine, d.spanEndLine⟩

def countKind (claims : List AuthClaim) (kind : AuthClaimKind) : Str :=
  Nat.toDigits 10 (claims.countP (fun claim => claim.kind = kind))

def summary (claims : List AuthClaim) : Str :=
  "Found ".toList ++ countKind claims .route ++ " authentication-relevant route(s), ".toList ++
    countKind claims .middleware ++ " guard dependency(ies), ".toList ++
    countKind claims .service ++ " service(s), and ".toList ++ countKind claims .model ++
    (" model(s) reached from them, each backed by a citation to its exact stored source " ++
      "span.").toList

/-- What is shown of the facts. -/
def respond (record : RepositoryRecord) (s : Progress) : AuthenticationExplanationResponse where
  schemaVersion := schemaVersion
  repositoryId := record.id
  repositoryName := record.name
  revisionKind := some facts.revisionKind
  revisionValue := some facts.revisionValue
  snapshotId := some facts.snapshotId
  status := .ready
  summary := summary s.claims
  claims := s.claims
  relationships := s.relationships
  chains := s.chains
  diagnostics := shownDiagnostics facts

/-- `build`. -/
def build (fuel : Nat) (record : RepositoryRecord) : Option AuthenticationExplanationResponse :=
  (processRoutes facts fuel (sorted facts.edges routesTo) noProgress).map (respond facts record)

end Builder

/-- What is shown of a repository without a snapshot. -/
def missingSnapshot (record : RepositoryRecord) : AuthenticationExplanationResponse where
  schemaVersion := schemaVersion
  repositoryId := record.id
  repositoryName := record.name
  revisionKind := record.revisionKind
  revisionValue := record.revisionValue
  snapshotId := none
  status := .missingSnapshot
  summary := ("No sealed repository intelligence snapshot is available for this repository yet. " ++
    "Run analysis to produce one before requesting an authentication explanation.").toList
  claims := []
  relationships := []
  chains := []
  diagnostics := [{
    code := "AUTH-NO-SNAPSHOT".toList
    category := "snapshot".toList
    severity := .info
    message := "No sealed snapshot exists for this repository's current revision.".toList
    path := none
    startLine := none
    endLine := none }]

/-- `explain`. -/
def explain (fuel : Nat) (record : RepositoryRecord) (facts : Option ArchitectureSnapshotFacts) :
    Option AuthenticationExplanationResponse :=
  match facts with
  | none => some (missingSnapshot record)
  | some facts => build facts fuel record

end Authentication

end Partha
