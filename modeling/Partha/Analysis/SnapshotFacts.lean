import Partha.Insights.RelationshipDiagnostics
import Partha.Library.Rows
import Partha.Library.SortKeys

/-!
# Facts of a Snapshot

`ArchitectureSnapshotFacts`, what `SnapshotQueryService.architecture_facts` returns of one
sealed snapshot.

The fields that are propositions are constraints of the tables: a stable key names one node,
an edge id names one edge, and the ends of an edge are nodes of its snapshot, which the query
returns with the edge.

## Main definitions

* `ArchitectureSnapshotFacts`: The facts.
* `nodeByKey`: The node of a key.
* `fileRole`: The role that a file is classified in.
-/

namespace Partha

namespace Facts

open Canonical (Str)

/-- A node. `routePath` is the text of the property `route_path`, if there is one. -/
structure RiNode where
  id : Nat
  stableKey : Str
  nodeKind : Str
  name : Option Str
  language : Option Str
  routePath : Option Str
  deriving DecidableEq, Repr

structure RiEdge where
  id : Nat
  edgeId : Str
  subjectKind : Str
  subjectKey : Str
  predicate : Str
  objectKind : Str
  objectKey : Str
  deriving DecidableEq, Repr

/-- An assertion. `classification` is the text at that name in its value. -/
structure RiAssertion where
  predicate : Str
  subjectKind : Str
  subjectKey : Str
  classification : Option Str
  deriving DecidableEq, Repr

structure RiEvidence where
  path : Str
  startLine : Nat
  endLine : Nat
  deriving DecidableEq, Repr

/-- A diagnostic, with the category that is shown of it. -/
structure RiDiagnostic extends Insights.RiDiagnostic where
  category : Str
  deriving DecidableEq, Repr

structure ArchitectureSnapshotFacts where
  snapshotId : Str
  revisionKind : Str
  revisionValue : Str
  nodes : List RiNode
  symbolKeys : List Str
  edges : List RiEdge
  assertions : List RiAssertion
  nodeEvidence : Nat → List RiEvidence
  edgeEvidence : Nat → List RiEvidence
  diagnostics : List RiDiagnostic
  coveredPaths : List Str
  /-- `uq_ri_nodes_snapshot_stable_key`. -/
  nodes_unique : (nodes.map RiNode.stableKey).Nodup
  /-- `uq_ri_edges_snapshot_edge_id`. -/
  edges_unique : (edges.map RiEdge.edgeId).Nodup
  /-- `fk_ri_edges_subject_node`. -/
  subjects : ∀ edge ∈ edges, ∃ node ∈ nodes, node.stableKey = edge.subjectKey
  /-- `fk_ri_edges_object_node`. -/
  objects : ∀ edge ∈ edges, ∃ node ∈ nodes, node.stableKey = edge.objectKey

variable (facts : ArchitectureSnapshotFacts)

def nodeByKey (key : Str) : Option RiNode :=
  facts.nodes.find? (fun node => node.stableKey = key)

def filePrefix : Str :=
  "file:".toList

/-- `removeprefix`. -/
def removePrefix (start s : Str) : Str :=
  if start.isPrefixOf s then s.drop start.length else s

/-- The classification that an assertion is about, if it is about one. -/
def classifiedAs (a : RiAssertion) : Option Str :=
  if a.predicate = "classified_as".toList then
    match a.classification with
    | none => none
    | some [] => none
    | some classification => some classification
  else none

/-- The role of a file. The last assertion about it stays. -/
def fileRole (path : Str) : Option Str :=
  (facts.assertions.filterMap fun a =>
    if a.subjectKind = "file".toList then
      (classifiedAs a).map (fun role => (removePrefix filePrefix a.subjectKey, role))
    else none).reverse.lookup path

/-- The classifications of a symbol. -/
def classifications (key : Str) : List Str :=
  facts.assertions.filterMap fun a =>
    if a.subjectKind = "symbol".toList && a.subjectKey = key then classifiedAs a else none

variable {facts}

theorem nodeByKey_eq_some {key : Str} {node : RiNode} :
    nodeByKey facts key = some node ↔ node ∈ facts.nodes ∧ node.stableKey = key :=
  Rows.find?_eq_some facts.nodes_unique

end Facts

end Partha
