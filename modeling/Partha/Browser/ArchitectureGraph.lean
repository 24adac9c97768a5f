import Partha.Canonical.Value
import Partha.Library.Search
import Mathlib.Algebra.Order.Ring.Rat

/-!
# The Graph of an Architecture

The nodes and edges of an architecture as the browser gets them, and the subtree of a node.

The subtree is searched level by level along the edges, and a node that was seen is not visited
again. What depends on the root is added to it. The search ends on every graph, also if it has
cycles, because every visit but the first is to the target of another edge.

## Main definitions

* `ArchNode`, `ArchEdge`, `ArchLayer`: What the browser gets.
* `getSubtreeIds`: The subtree of a node.
* `InSubtree`: The root, what it reaches, and what depends on it.

## Theorems

* `subtreeLoop_alike`: The loop is a breadth-first search.
* `getSubtreeIds_spec`: The search ends, and has found the subtree.
-/

namespace Partha

namespace ArchitectureGraph

open Canonical (Str)
open List

section Types

inductive ArchNodeType where
  | frontend
  | backend
  | entrypoint
  | controller
  | route
  | service
  | repository
  | database
  | configuration
  | authentication
  | middleware
  | utilities
  | models
  | externalApi
  | sharedLibrary
  | environment
  | queue
  | cache
  deriving DecidableEq, Repr

inductive ArchEdgeType where
  | dependency
  | import
  | apiCall
  | dataFlow
  | event
  | reads
  | writes
  | calls
  | configUsage
  deriving DecidableEq, Repr

inductive RelationshipState where
  | connected
  | noObservedRelationships
  | unresolved
  | notExtracted
  deriving DecidableEq, Repr

inductive Complexity where
  | low
  | medium
  | high
  | notComputed
  deriving DecidableEq, Repr

/-- `ArchNode`. -/
structure ArchNode where
  id : Str
  name : Str
  type : ArchNodeType
  description : Str
  files : List Str
  dependents : List Str
  estimatedComplexity : Complexity
  layer : Str
  relationshipState : RelationshipState
  deriving DecidableEq, Repr

/-- `ArchEdge`. -/
structure ArchEdge where
  id : Str
  source : Str
  target : Str
  type : ArchEdgeType
  deriving DecidableEq, Repr

/-- `ArchLayer`. The order may be missing. -/
structure ArchLayer where
  id : Str
  order : Option ℚ
  nodes : List Str

end Types

section Search

/-- `ids` and `queue`. -/
structure Subtree where
  ids : List Str
  queue : List Str

/-- The body of the loop over the edges. -/
def followEdge (current : Str) (s : Subtree) (edge : ArchEdge) : Subtree :=
  if edge.source = current ∧ ¬ s.ids.elem edge.target then
    { ids := s.ids ++ [edge.target], queue := s.queue ++ [edge.target] }
  else s

/-- The loop over the queue. -/
def subtreeLoop (edges : List ArchEdge) : Nat → Subtree → Option Subtree
  | 0, s => match s.queue with
    | [] => some s
    | _ :: _ => none
  | fuel + 1, s => match s.queue with
    | [] => some s
    | current :: rest =>
      subtreeLoop edges fuel (edges.foldl (followEdge current) { s with queue := rest })

/-- `getSubtreeIds`. -/
def getSubtreeIds (fuel : Nat) (rootId : Str) (nodes : List ArchNode) (edges : List ArchEdge) :
    Option (List Str) :=
  (subtreeLoop edges fuel { ids := [rootId], queue := [rootId] }).map fun s =>
    match nodes.find? (fun n => n.id = rootId) with
    | some rootNode => s.ids ++ rootNode.dependents
    | none => s.ids

/-- An edge leads from one node to another. -/
def Leads (edges : List ArchEdge) (source target : Str) : Prop :=
  ∃ edge ∈ edges, edge.source = source ∧ edge.target = target

/-- The root, what it reaches along edges, and what is listed in its dependents. -/
def InSubtree (nodes : List ArchNode) (edges : List ArchEdge) (root id : Str) : Prop :=
  Relation.ReflTransGen (Leads edges) root id ∨
    ∃ node ∈ nodes, node.id = root ∧ id ∈ node.dependents

/-- The edges as a graph in which everything is usable. -/
def searchGraph (edges : List ArchEdge) : Search.Graph Str ArchEdge where
  out k := edges.filter (fun e => e.source = k)
  source := ArchEdge.source
  target := ArchEdge.target
  usable _ := true
  wanted _ := false
  out_source _ _ he := of_decide_eq_true (List.mem_filter.mp he).2

variable {edges : List ArchEdge}

theorem step_searchGraph {k k' : Str} :
    Search.Step (searchGraph edges) k k' ↔ Leads edges k k' := by
  constructor
  · rintro ⟨e, he, -, htarget⟩
    rcases mem_filter.mp he with ⟨hmem, hsource⟩
    exact ⟨e, hmem, of_decide_eq_true hsource, htarget⟩
  · rintro ⟨e, he, hsource, htarget⟩
    exact ⟨e, mem_filter.mpr ⟨he, decide_eq_true hsource⟩, rfl, htarget⟩

/-- The two searches have seen the same nodes, and go on with the same. -/
structure Alike (s : Subtree) (t : Search.State Str ArchEdge) : Prop where
  ids : ∀ k, k ∈ s.ids ↔ k ∈ t.visited
  queue : s.queue = t.queue

variable {s : Subtree} {t : Search.State Str ArchEdge}

/-- Edges out of other nodes are passed over. -/
theorem alike_foldl {current : Str} (es : List ArchEdge) (h : Alike s t) :
    Alike (es.foldl (followEdge current) s)
      ((es.filter (fun e => e.source = current)).foldl
        (Search.visit (searchGraph edges) current) t) := by
  induction es generalizing s t with
  | nil => exact h
  | cons e es ih =>
    rw [foldl_cons]
    by_cases hsource : e.source = current
    · rw [filter_cons, if_pos (decide_eq_true hsource), foldl_cons]
      refine ih ?_
      by_cases hseen : e.target ∈ s.ids
      · have hvisited : (searchGraph edges).target e ∈ t.visited := (h.ids _).mp hseen
        rw [followEdge, if_neg (fun hboth => hboth.2 (elem_eq_true_of_mem hseen)), Search.visit,
          if_pos hvisited]
        exact h
      · have hvisited : (searchGraph edges).target e ∉ t.visited :=
          fun hmem => hseen ((h.ids _).mpr hmem)
        rw [followEdge, if_pos ⟨hsource, fun helem => hseen (mem_of_elem_eq_true helem)⟩,
          Search.visit, if_neg hvisited]
        refine ⟨fun k => ?_, congrArg (· ++ [e.target]) h.queue⟩
        rw [mem_append, mem_singleton, h.ids k, or_comm]
        exact mem_cons.symm
    · rw [filter_cons, if_neg (by rwa [decide_eq_true_eq]), followEdge,
        if_neg (fun hboth => hsource hboth.1)]
      exact ih h

/-- The loop is a breadth-first search. -/
theorem subtreeLoop_alike (fuel : Nat) {t' : Search.State Str ArchEdge} (h : Alike s t)
    (hloop : Search.loop (searchGraph edges) fuel t = some t') :
    ∃ s', subtreeLoop edges fuel s = some s' ∧ Alike s' t' := by
  induction fuel generalizing s t with
  | zero =>
    unfold Search.loop at hloop
    unfold subtreeLoop
    rw [h.queue]
    cases hqueue : t.queue with
    | nil =>
      rw [hqueue] at hloop
      cases hloop
      exact ⟨s, rfl, h⟩
    | cons current rest =>
      rw [hqueue] at hloop
      cases hloop
  | succ fuel ih =>
    unfold Search.loop at hloop
    unfold subtreeLoop
    rw [h.queue]
    cases hqueue : t.queue with
    | nil =>
      rw [hqueue] at hloop
      cases hloop
      exact ⟨s, rfl, h⟩
    | cons current rest =>
      rw [hqueue] at hloop
      exact ih (alike_foldl (t := { t with queue := rest }) edges ⟨h.ids, rfl⟩) hloop

/-- More rounds change nothing. -/
theorem subtreeLoop_mono (fuel more : Nat) {s' : Subtree} (h : subtreeLoop edges fuel s = some s') :
    subtreeLoop edges (fuel + more) s = some s' := by
  induction fuel generalizing s with
  | zero =>
    unfold subtreeLoop at h
    split at h
    · rename_i hqueue
      rw [Nat.zero_add, ← Option.some.inj h]
      cases more with
      | zero => rw [subtreeLoop, hqueue]
      | succ more => rw [subtreeLoop, hqueue]
    · cases h
  | succ fuel ih =>
    rw [Nat.succ_add]
    unfold subtreeLoop at h ⊢
    split at h
    · exact h
    · exact ih h

/-- What is listed in the dependents of a node. -/
def listedDependents (root : Str) (nodes : List ArchNode) : List Str :=
  match nodes.find? (fun n => n.id = root) with
  | some rootNode => rootNode.dependents
  | none => []

theorem mem_listedDependents {root id : Str} {nodes : List ArchNode}
    (hids : (nodes.map ArchNode.id).Nodup) :
    id ∈ listedDependents root nodes ↔ ∃ node ∈ nodes, node.id = root ∧ id ∈ node.dependents := by
  unfold listedDependents
  cases hfind : nodes.find? (fun n => n.id = root) with
  | none =>
    refine iff_of_false not_mem_nil ?_
    rintro ⟨node, hmem, hroot, -⟩
    exact List.find?_eq_none.mp hfind node hmem (decide_eq_true hroot)
  | some rootNode =>
    have hfound := List.find?_some hfind
    have hroot := of_decide_eq_true hfound
    have hmem := mem_of_find?_eq_some hfind
    constructor
    · exact fun h => ⟨rootNode, hmem, hroot, h⟩
    · rintro ⟨node, hnode, hid, h⟩
      rw [inj_on_of_nodup_map hids hmem hnode (hroot.trans hid.symm)]
      exact h

/-- The search ends within as many rounds as there are edges and one more, and the subtree is what
    it has found. -/
theorem getSubtreeIds_spec (root : Str) (nodes : List ArchNode) (edges : List ArchEdge)
    (hids : (nodes.map ArchNode.id).Nodup) :
    ∃ ids, (∀ fuel, edges.length + 1 ≤ fuel → getSubtreeIds fuel root nodes edges = some ids) ∧
      ∀ id, id ∈ ids ↔ InSubtree nodes edges root id := by
  have hweight : Search.weight (edges.map ArchEdge.target)
      (Search.start root : Search.State Str ArchEdge) ≤ edges.length + 1 := by
    unfold Search.weight
    refine Nat.add_le_add_right (Nat.le_trans (length_filter_le _ _) ?_) 1
    rw [length_map]
  have htargets : ∀ k, ∀ e ∈ (searchGraph edges).out k,
      (searchGraph edges).target e ∈ edges.map ArchEdge.target :=
    fun k e he => mem_map_of_mem (mem_filter.mp he).1
  rcases Search.loop_terminates htargets (edges.length + 1) _ hweight with ⟨t, hloop⟩
  have hstart : Alike { ids := [root], queue := [root] } (Search.start root) :=
    ⟨fun k => Iff.rfl, rfl⟩
  rcases subtreeLoop_alike (edges.length + 1) hstart hloop with ⟨s, hs, halike⟩
  have hreached : ∀ id, id ∈ s.ids ↔ Relation.ReflTransGen (Leads edges) root id := by
    have hsteps : Search.Step (searchGraph edges) = Leads edges :=
      funext (fun k => funext (fun k' => propext step_searchGraph))
    intro id
    rw [halike.ids, (Search.loop_spec hloop).2, Search.Reaches, hsteps]
  refine ⟨s.ids ++ listedDependents root nodes, fun fuel hfuel => ?_, fun id => ?_⟩
  · have hlonger := subtreeLoop_mono (edges.length + 1) (fuel - (edges.length + 1)) hs
    rw [Nat.add_sub_cancel' hfuel] at hlonger
    rw [getSubtreeIds, hlonger, Option.map_some, listedDependents]
    cases nodes.find? (fun n => n.id = root) with
    | none => rw [append_nil]
    | some node => rfl
  · rw [mem_append, hreached, mem_listedDependents hids]
    rfl

end Search

end ArchitectureGraph

end Partha
