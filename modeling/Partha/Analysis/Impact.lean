import Mathlib.Data.Prod.Lex
import Partha.Canonical.Value
import Partha.Library.BreadthFirst

/-!
# Impact of a Node

What depends on a node of a snapshot and what it depends on, up to a depth.

Edges are followed in one direction, a level at a time. For each node that has not been visited
the query ranks the edges to it from the level, and keeps the first. It is asked for one edge more
than a direction may return, so that what it leaves out is never needed. The one cap is on all
levels together, and with the first edge beyond it the search stops and says so.

The canonical order of edges compares text as the database does.

## Main definitions

* `impactDirection`: `_impact_direction`.
* `ExactSearch`: What a direction returns is a breadth-first search up to the cap.

## Theorems

* `impactDirection_eq`: The cap cuts off a list that the graph determines.
* `impact_exact`: The search is exact.
-/

namespace Partha

namespace Impact

open Canonical SortKeys BreadthFirst List

section Definitions

/-- How the database compares text: by a key that tells texts apart. -/
class Collation where
  sortKey : Str → List Nat
  sortKey_injective : Function.Injective sortKey

export Collation (sortKey sortKey_injective)

/-- By code points. -/
@[reducible]
def binary : Collation :=
  { sortKey := codePoints
    sortKey_injective := codePoints_injective }

/-- `RiEdge`. -/
structure RiEdge where
  id : Nat
  edgeId : Str
  subjectKey : Str
  predicate : Str
  objectKey : Str
  deriving DecidableEq, Repr

/-- The edges of a snapshot, whose rows have an identifier each. -/
structure Edges where
  rows : List RiEdge
  once : (rows.map RiEdge.id).Nodup

/-- `SnapshotImpactStep`. -/
structure SnapshotImpactStep where
  depth : Nat
  nodeKey : Str
  edge : RiEdge
  deriving DecidableEq, Repr

/-- `SnapshotImpactDirection`. -/
structure SnapshotImpactDirection where
  steps : List SnapshotImpactStep
  limitReached : Bool
  deriving DecidableEq, Repr

/-- `IMPACT_TRAVERSAL_PREDICATES`. -/
def impactTraversalPredicates : List Str :=
  ["depends_on".toList, "imports".toList]

/-- `IMPACT_MAX_RESULTS_PER_DIRECTION`. -/
def impactMaxResultsPerDirection : Nat := 100

def endpoint (outbound : Bool) (e : RiEdge) : Str :=
  if outbound then e.subjectKey else e.objectKey

def adjacent (outbound : Bool) (e : RiEdge) : Str :=
  if outbound then e.objectKey else e.subjectKey

variable [Collation]

/-- What edges are ordered by. -/
def canonicalKey (e : RiEdge) : List Nat ×ₗ List Nat ×ₗ List Nat ×ₗ List Nat ×ₗ Nat :=
  toLex (sortKey e.subjectKey, toLex (sortKey e.predicate, toLex (sortKey e.objectKey,
    toLex (sortKey e.edgeId, e.id))))

/-- The edges that are ranked. -/
def rankedEdges (rows : List RiEdge) (outbound : Bool) (frontier visited : List Str) :
    List RiEdge :=
  rows.filter (fun e => impactTraversalPredicates.elem e.predicate &&
    frontier.elem (endpoint outbound e) && !visited.elem (adjacent outbound e))

/-- `row_number()` among the edges to a node. -/
def canonicalRank (outbound : Bool) (es : List RiEdge) (e : RiEdge) : Nat :=
  es.countP (fun e' => adjacent outbound e' = adjacent outbound e ∧
    canonicalKey e' < canonicalKey e) + 1

/-- What the query of a level returns. -/
def levelEdges (rows : List RiEdge) (outbound : Bool) (frontier visited : List Str) :
    List RiEdge :=
  (sortBy canonicalKey ((rankedEdges rows outbound frontier visited).filter
    (fun e => canonicalRank outbound (rankedEdges rows outbound frontier visited) e = 1))).take
      (impactMaxResultsPerDirection + 1)

/-- What the search goes on with: the visited nodes, the next frontier, and the steps. -/
structure Walked where
  visited : List Str
  frontier : List Str
  steps : List SnapshotImpactStep

/-- The edges of a level, one after the other, or the steps when the cap is reached. -/
def takeEdges (outbound : Bool) (distance : Nat) :
    List RiEdge → Walked → Except (List SnapshotImpactStep) Walked
  | [], w => .ok w
  | e :: es, w =>
    if w.steps.length ≥ impactMaxResultsPerDirection then .error w.steps
    else takeEdges outbound distance es
      { visited := w.visited ++ [adjacent outbound e]
        frontier := w.frontier ++ [adjacent outbound e]
        steps := w.steps ++
          [{ depth := distance, nodeKey := adjacent outbound e, edge := e }] }

/-- The levels that are left. -/
def walkLevels (rows : List RiEdge) (outbound : Bool) :
    Nat → Nat → Walked → SnapshotImpactDirection
  | 0, _, w => { steps := w.steps, limitReached := false }
  | left + 1, distance, w =>
    if w.frontier = [] then { steps := w.steps, limitReached := false }
    else match takeEdges outbound distance (levelEdges rows outbound w.frontier w.visited)
        { w with frontier := [] } with
      | .error steps => { steps := steps, limitReached := true }
      | .ok w => walkLevels rows outbound left (distance + 1) w

/-- `_impact_direction`. -/
def impactDirection (edges : Edges) (nodeKey : Str) (depth : Nat) (outbound : Bool) :
    SnapshotImpactDirection :=
  walkLevels edges.rows outbound depth 1
    { visited := [nodeKey], frontier := [nodeKey], steps := [] }

end Definitions

section Statements

variable [Collation]

/-- The edges that are followed, in a direction. -/
def graphOf (edges : Edges) (outbound : Bool) :
    Graph Str RiEdge (List Nat ×ₗ List Nat ×ₗ List Nat ×ₗ List Nat ×ₗ Nat) :=
  { arcs := edges.rows.filter (fun e => impactTraversalPredicates.elem e.predicate)
    source := endpoint outbound
    target := adjacent outbound
    key := canonicalKey }

/-- An edge connects the node of a step to the start, or to that of a step of depth one less. -/
def Connects (edges : Edges) (outbound : Bool) (nodeKey : Str) (steps : List SnapshotImpactStep)
    (s : SnapshotImpactStep) (e : RiEdge) : Prop :=
  e ∈ (graphOf edges outbound).arcs ∧ adjacent outbound e = s.nodeKey ∧
    (endpoint outbound e = nodeKey ∨
      ∃ t ∈ steps, t.nodeKey = endpoint outbound e ∧ t.depth + 1 = s.depth)

/-- The order of depth and canonical edge. -/
def StepBefore (s t : SnapshotImpactStep) : Prop :=
  s.depth < t.depth ∨ s.depth = t.depth ∧ canonicalKey s.edge < canonicalKey t.edge

/-- The steps to all nodes that are reachable within a depth, in their order. -/
structure Ranking (edges : Edges) (outbound : Bool) (nodeKey : Str) (depth : Nat)
    (ranking : List SnapshotImpactStep) : Prop where
  ordered : ranking.Pairwise StepBefore
  reachable : ∀ v, (∃ s ∈ ranking, s.nodeKey = v) ↔
    v ≠ nodeKey ∧ ∃ n ≤ depth, Reach (graphOf edges outbound) nodeKey n v
  shortest : ∀ s ∈ ranking, Shortest (graphOf edges outbound) nodeKey s.depth s.nodeKey
  connected : ∀ s ∈ ranking, Connects edges outbound nodeKey ranking s s.edge ∧
    ∀ e, Connects edges outbound nodeKey ranking s e → canonicalKey s.edge ≤ canonicalKey e

/-- What is returned is a breadth-first search up to the cap. -/
structure ExactSearch (edges : Edges) (outbound : Bool) (nodeKey : Str) (depth : Nat)
    (r : SnapshotImpactDirection) : Prop where
  distinct : (r.steps.map SnapshotImpactStep.nodeKey).Nodup
  others : ∀ s ∈ r.steps, s.nodeKey ≠ nodeKey
  ordered : r.steps.Pairwise (fun s t => s.depth ≤ t.depth)
  shortest : ∀ s ∈ r.steps, Shortest (graphOf edges outbound) nodeKey s.depth s.nodeKey
  connected : ∀ s ∈ r.steps, Connects edges outbound nodeKey r.steps s s.edge ∧
    ∀ e, Connects edges outbound nodeKey r.steps s e → canonicalKey s.edge ≤ canonicalKey e
  complete : r.limitReached = false ↔ ∀ v, v ≠ nodeKey →
    (∃ n ≤ depth, Reach (graphOf edges outbound) nodeKey n v) → ∃ s ∈ r.steps, s.nodeKey = v
  capped : r.limitReached = true → r.steps.length = 100 ∧
    ∃ ranking, Ranking edges outbound nodeKey depth ranking ∧ r.steps = ranking.take 100

end Statements

section Levels

variable [Collation] {edges : Edges} {outbound : Bool}

theorem candidates_eq (frontier visited : List Str) :
    candidates (graphOf edges outbound) frontier visited =
      rankedEdges edges.rows outbound frontier visited := by
  rw [candidates, graphOf, rankedEdges, filter_filter]
  refine filter_congr (fun e _ => ?_)
  rw [Bool.eq_iff_iff]
  simp only [Bool.and_eq_true, decide_eq_true_eq, Bool.not_eq_true', Bool.eq_false_iff, Ne,
    elem_iff]
  exact and_comm.trans and_assoc.symm

/-- The query of a level returns the first of the edges to the next one. -/
theorem levelEdges_eq (frontier visited : List Str) :
    levelEdges edges.rows outbound frontier visited =
      (layer (graphOf edges outbound) frontier visited).take
        (impactMaxResultsPerDirection + 1) := by
  rw [levelEdges, layer, candidates_eq]
  rfl

/-- The step for an edge, with its level. -/
def stepOf (outbound : Bool) (p : Nat × RiEdge) : SnapshotImpactStep :=
  { depth := p.1, nodeKey := adjacent outbound p.2, edge := p.2 }

omit [Collation] in
/-- The edges of a level are taken, if there is room for all of them. -/
theorem takeEdges_eq (distance : Nat) : ∀ (es : List RiEdge) (w : Walked),
    w.steps.length ≤ impactMaxResultsPerDirection →
    takeEdges outbound distance es w =
      if w.steps.length + es.length ≤ impactMaxResultsPerDirection then
        .ok
          { visited := w.visited ++ es.map (adjacent outbound)
            frontier := w.frontier ++ es.map (adjacent outbound)
            steps := w.steps ++ es.map (fun e => stepOf outbound (distance, e)) }
      else .error ((w.steps ++ es.map (fun e => stepOf outbound (distance, e))).take
        impactMaxResultsPerDirection) := by
  intro es
  induction es with
  | nil =>
    intro w hw
    rw [if_pos (by rw [length_nil]; exact hw), takeEdges]
    simp
  | cons e es ih =>
    intro w hw
    rw [takeEdges]
    by_cases hfull : w.steps.length ≥ impactMaxResultsPerDirection
    · rw [if_pos hfull, if_neg (by rw [length_cons]; omega), take_left' (by omega)]
    · rw [if_neg hfull, ih _ (by rw [length_append, length_singleton]; omega)]
      simp only [length_append, length_cons, map_cons, append_assoc,
        singleton_append, Nat.add_right_comm _ 1, ← Nat.add_assoc]
      rfl

/-- The cap cuts off the edges of all levels together. -/
theorem walkLevels_eq (left : Nat) : ∀ (distance : Nat) (w : Walked),
    w.steps.length ≤ impactMaxResultsPerDirection →
    walkLevels edges.rows outbound left distance w =
      { steps := (w.steps ++ (layers (graphOf edges outbound) left distance w.frontier
          w.visited).map (stepOf outbound)).take impactMaxResultsPerDirection
        limitReached := decide (impactMaxResultsPerDirection < (w.steps ++ (layers
          (graphOf edges outbound) left distance w.frontier w.visited).map
            (stepOf outbound)).length) } := by
  have hstop : ∀ w : Walked, w.steps.length ≤ impactMaxResultsPerDirection →
      ({ steps := w.steps, limitReached := false } : SnapshotImpactDirection) =
        { steps := (w.steps ++ []).take impactMaxResultsPerDirection
          limitReached := decide (impactMaxResultsPerDirection < (w.steps ++ []).length) } := by
    intro w hw
    rw [append_nil, take_of_length_le hw, decide_eq_false (Nat.not_lt.mpr hw)]
  induction left with
  | zero => exact fun distance w hw => hstop w hw
  | succ left ih =>
    intro distance w hw
    rw [walkLevels]
    by_cases hfrontier : w.frontier = []
    · rw [if_pos hfrontier, hfrontier, layers_nil]
      exact hstop w hw
    · rw [if_neg hfrontier, takeEdges_eq distance _ { w with frontier := [] } hw, levelEdges_eq,
        layers]
      generalize hes : layer (graphOf edges outbound) w.frontier w.visited = es
      by_cases hroom : w.steps.length + es.length ≤ impactMaxResultsPerDirection
      · -- There is room for the whole level, so the limit of the query left nothing out.
        have hall : es.take (impactMaxResultsPerDirection + 1) = es :=
          take_of_length_le (by omega)
        rw [hall, if_pos hroom]
        simp only
        rw [ih _ _ (by rw [length_append, length_map]; exact hroom)]
        simp only [map_append, map_map, append_assoc, nil_append]
        rfl
      · have hcut : ¬ w.steps.length + (es.take (impactMaxResultsPerDirection + 1)).length ≤
            impactMaxResultsPerDirection := by
          rw [length_take]
          omega
        have hlong : impactMaxResultsPerDirection <
            (w.steps ++ ((es.map (fun e => (distance, e)) ++
              layers (graphOf edges outbound) left (distance + 1)
                (es.map (graphOf edges outbound).target)
                (w.visited ++ es.map (graphOf edges outbound).target)).map
                  (stepOf outbound))).length := by
          rw [length_append, length_map, length_append, length_map]
          omega
        rw [if_neg hcut, decide_eq_true hlong]
        refine congrArg (fun steps => SnapshotImpactDirection.mk steps true) ?_
        have hroom' : impactMaxResultsPerDirection - w.steps.length ≤ es.length := by omega
        have hlimit : (es.take (impactMaxResultsPerDirection + 1)).take
            (impactMaxResultsPerDirection - w.steps.length) =
              es.take (impactMaxResultsPerDirection - w.steps.length) := by
          rw [take_take, Nat.min_eq_left (by omega)]
        rw [take_append, take_append, map_append, ← map_take, hlimit,
          take_append_of_le_length (by rw [length_map, length_map]; exact hroom'),
          ← map_take, ← map_take, map_map]
        rfl

/-- What is returned is cut off from a list that the graph determines. -/
theorem impactDirection_eq (edges : Edges) (nodeKey : Str) (depth : Nat) (outbound : Bool) :
    impactDirection edges nodeKey depth outbound =
      { steps := ((layers (graphOf edges outbound) depth 1 [nodeKey] [nodeKey]).map
          (stepOf outbound)).take impactMaxResultsPerDirection
        limitReached := decide (impactMaxResultsPerDirection <
          ((layers (graphOf edges outbound) depth 1 [nodeKey] [nodeKey]).map
            (stepOf outbound)).length) } :=
  walkLevels_eq depth 1 { visited := [nodeKey], frontier := [nodeKey], steps := [] }
    (Nat.zero_le _)

end Levels

section Exactness

variable [Collation] {edges : Edges} {outbound : Bool} {nodeKey : Str} {depth : Nat}

theorem canonicalKey_inj {e e' : RiEdge} (h : canonicalKey e = canonicalKey e') : e = e' := by
  rcases e with ⟨id, edgeId, subjectKey, predicate, objectKey⟩
  rcases e' with ⟨id', edgeId', subjectKey', predicate', objectKey'⟩
  simp only [canonicalKey, toLex_inj, Prod.mk.injEq] at h
  rcases h with ⟨hsubject, hpredicate, hobject, hedge, rfl⟩
  rw [sortKey_injective hsubject, sortKey_injective hpredicate, sortKey_injective hobject,
    sortKey_injective hedge]

/-- The steps to all nodes that are reachable within the depth. -/
def allSteps (edges : Edges) (outbound : Bool) (nodeKey : Str) (depth : Nat) :
    List SnapshotImpactStep :=
  (layers (graphOf edges outbound) depth 1 [nodeKey] [nodeKey]).map (stepOf outbound)

theorem mem_allSteps {s : SnapshotImpactStep} :
    s ∈ allSteps edges outbound nodeKey depth ↔ ∃ m < depth, ∃ e,
      s = stepOf outbound (m + 1, e) ∧ Canonical (graphOf edges outbound) nodeKey m e := by
  have hlayers : ∀ level e, (level, e) ∈ layers (graphOf edges outbound) depth 1 [nodeKey]
      [nodeKey] ↔ ∃ m, 0 ≤ m ∧ m < 0 + depth ∧ level = m + 1 ∧
        Canonical (graphOf edges outbound) nodeKey m e :=
    fun _ _ => mem_layers depth front_start
  rw [allSteps, mem_map]
  constructor
  · rintro ⟨⟨level, e⟩, hmem, rfl⟩
    rcases (hlayers level e).mp hmem with ⟨m, -, hlt, rfl, hcanonical⟩
    exact ⟨m, by omega, e, rfl, hcanonical⟩
  · rintro ⟨m, hlt, e, rfl, hcanonical⟩
    exact ⟨(m + 1, e), (hlayers (m + 1) e).mpr ⟨m, by omega, by omega, rfl, hcanonical⟩, rfl⟩

theorem allSteps_ordered : (allSteps edges outbound nodeKey depth).Pairwise StepBefore := by
  rw [allSteps, pairwise_map]
  have honce : (graphOf edges outbound).arcs.Nodup := (List.Nodup.of_map _ edges.once).filter _
  have hordered := pairwise_layers honce (fun e _ e' _ h => canonicalKey_inj h) depth
    (@front_start _ _ _ (graphOf edges outbound) nodeKey)
  exact hordered

variable {t : SnapshotImpactStep}

theorem StepBefore.asymm {s : SnapshotImpactStep} (h : StepBefore s t) : ¬ StepBefore t s := by
  rintro (h' | ⟨h', hkey'⟩)
  · rcases h with h | ⟨h, -⟩ <;> omega
  · rcases h with h | ⟨-, hkey⟩
    · omega
    · exact lt_asymm hkey hkey'

/-- What comes before one of the first steps is one of them. -/
theorem mem_take_before {l : List SnapshotImpactStep} (hl : l.Pairwise StepBefore) {n : Nat}
    {s : SnapshotImpactStep} (hs : s ∈ l.take n) (ht : t ∈ l) (hts : StepBefore t s) :
    t ∈ l.take n := by
  rw [← take_append_drop n l] at hl ht
  rcases mem_append.mp ht with ht | ht
  · exact ht
  · exact absurd hts ((pairwise_append.mp hl).2.2 s hs t ht).asymm

theorem shortest_of_mem {s : SnapshotImpactStep} (hs : s ∈ allSteps edges outbound nodeKey depth) :
    Shortest (graphOf edges outbound) nodeKey s.depth s.nodeKey := by
  rcases mem_allSteps.mp hs with ⟨m, -, e, rfl, hcanonical⟩
  exact hcanonical.target

theorem ne_start_of_mem {s : SnapshotImpactStep} (hs : s ∈ allSteps edges outbound nodeKey depth) :
    s.nodeKey ≠ nodeKey := by
  intro hstart
  rcases mem_allSteps.mp hs with ⟨m, -, e, rfl, hcanonical⟩
  have htarget := hcanonical.target
  have hnode : (graphOf edges outbound).target e = nodeKey := hstart
  rw [hnode] at htarget
  exact absurd (htarget.unique shortest_start) (Nat.succ_ne_zero m)

/-- There is one step to a node. -/
theorem eq_of_nodeKey_eq {s : SnapshotImpactStep} (hs : s ∈ allSteps edges outbound nodeKey depth)
    (ht : t ∈ allSteps edges outbound nodeKey depth) (h : s.nodeKey = t.nodeKey) : s = t := by
  rcases mem_allSteps.mp hs with ⟨m, -, e, rfl, hcanonical⟩
  rcases mem_allSteps.mp ht with ⟨m', -, e', rfl, hcanonical'⟩
  have hsame : (graphOf edges outbound).target e = (graphOf edges outbound).target e' := h
  have hlevel := hcanonical.target
  rw [hsame] at hlevel
  have hm : m = m' := Nat.succ_inj.mp (hlevel.unique hcanonical'.target)
  subst hm
  have hkey := le_antisymm (hcanonical.least e' hcanonical'.mem hcanonical'.source hsame.symm)
    (hcanonical'.least e hcanonical.mem hcanonical.source hsame)
  rw [canonicalKey_inj hkey]

/-- The nodes of the steps are those that are reachable. -/
theorem reachable_iff (v : Str) : (∃ s ∈ allSteps edges outbound nodeKey depth, s.nodeKey = v) ↔
    v ≠ nodeKey ∧ ∃ n ≤ depth, Reach (graphOf edges outbound) nodeKey n v := by
  constructor
  · rintro ⟨s, hs, rfl⟩
    refine ⟨ne_start_of_mem hs, ?_⟩
    rcases mem_allSteps.mp hs with ⟨m, hlt, e, rfl, hcanonical⟩
    exact ⟨m + 1, hlt, hcanonical.target.1⟩
  · rintro ⟨hne, n, hn, hreach⟩
    rcases exists_shortest hreach with ⟨m, hm, hshort⟩
    cases m with
    | zero => exact absurd (shortest_zero hshort) hne
    | succ m =>
      rcases exists_canonical hshort with ⟨e, hcanonical, rfl⟩
      exact ⟨_, mem_allSteps.mpr ⟨m, by omega, e, rfl, hcanonical⟩, rfl⟩

/-- The edge of one of the first steps is the first that connects its node. -/
theorem connected_take (n : Nat) {s : SnapshotImpactStep}
    (hs : s ∈ (allSteps edges outbound nodeKey depth).take n) :
    Connects edges outbound nodeKey ((allSteps edges outbound nodeKey depth).take n) s s.edge ∧
      ∀ e, Connects edges outbound nodeKey ((allSteps edges outbound nodeKey depth).take n) s e →
        canonicalKey s.edge ≤ canonicalKey e := by
  rcases mem_allSteps.mp (mem_of_mem_take hs) with ⟨m, hlt, e, rfl, hcanonical⟩
  constructor
  · refine ⟨hcanonical.mem, rfl, ?_⟩
    cases m with
    | zero => exact .inl (shortest_zero hcanonical.source)
    | succ m =>
      rcases exists_canonical hcanonical.source with ⟨e', hcanonical', hsource⟩
      have hmem : stepOf outbound (m + 1, e') ∈ allSteps edges outbound nodeKey depth :=
        mem_allSteps.mpr ⟨m, by omega, e', rfl, hcanonical'⟩
      exact .inr ⟨_, mem_take_before allSteps_ordered hs hmem (.inl (Nat.lt_succ_self _)),
        hsource, rfl⟩
  · rintro e' ⟨hmem, hnode, hfrom⟩
    refine hcanonical.least e' hmem ?_ hnode
    rcases hfrom with hstart | ⟨t, ht, hsource, hdepth⟩
    · -- What an edge leads to from the start is at depth one.
      have hreach : Reach (graphOf edges outbound) nodeKey 1 (adjacent outbound e') :=
        Reach.step hmem (by rw [show (graphOf edges outbound).source e' = nodeKey from hstart]
                            exact Reach.start)
      rw [hnode] at hreach
      have hle := hcanonical.target.2 1 hreach
      have hm : m = 0 := by omega
      rw [hm, show (graphOf edges outbound).source e' = nodeKey from hstart]
      exact shortest_start
    · have hshort := shortest_of_mem (mem_of_mem_take ht)
      rw [hsource, Nat.succ_inj.mp hdepth] at hshort
      exact hshort

theorem ranking_allSteps :
    Ranking edges outbound nodeKey depth (allSteps edges outbound nodeKey depth) where
  ordered := allSteps_ordered
  reachable := reachable_iff
  shortest := fun _ => shortest_of_mem
  connected := fun s hs => by
    have hall := @connected_take _ edges outbound nodeKey depth
      (allSteps edges outbound nodeKey depth).length s
    rw [take_length] at hall
    exact hall hs

/-- What a direction returns is an exact breadth-first search up to the cap. -/
theorem impact_exact (edges : Edges) (nodeKey : Str) (depth : Nat) (outbound : Bool) :
    ExactSearch edges outbound nodeKey depth (impactDirection edges nodeKey depth outbound) := by
  rw [impactDirection_eq]
  change ExactSearch edges outbound nodeKey depth
    { steps := (allSteps edges outbound nodeKey depth).take impactMaxResultsPerDirection
      limitReached := decide (impactMaxResultsPerDirection <
        (allSteps edges outbound nodeKey depth).length) }
  have hordered := @allSteps_ordered _ edges outbound nodeKey depth
  have hmem : ∀ s ∈ (allSteps edges outbound nodeKey depth).take impactMaxResultsPerDirection,
      s ∈ allSteps edges outbound nodeKey depth := fun s hs => mem_of_mem_take hs
  have hirrefl : ∀ s : SnapshotImpactStep, ¬ StepBefore s s := fun s h => h.asymm h
  have hdistinct : ((allSteps edges outbound nodeKey depth).map
      SnapshotImpactStep.nodeKey).Nodup := by
    have hnodup : (allSteps edges outbound nodeKey depth).Nodup := by
      refine hordered.imp (fun {s t} h heq => ?_)
      rw [heq] at h
      exact hirrefl t h
    exact List.Nodup.map_on (fun s hs t ht h => eq_of_nodeKey_eq hs ht h) hnodup
  refine ⟨?_, fun s hs => ne_start_of_mem (hmem s hs), ?_, fun s hs => shortest_of_mem (hmem s hs),
    fun s hs => connected_take impactMaxResultsPerDirection hs, ?_, fun hlimit => ⟨?_, ?_⟩⟩
  · rw [map_take]
    exact hdistinct.sublist (take_sublist _ _)
  · refine (hordered.sublist (take_sublist _ _)).imp (fun {s t} h => ?_)
    rcases h with h | ⟨h, -⟩ <;> omega
  · rw [decide_eq_false_iff_not, Nat.not_lt]
    constructor
    · intro hshort v hne hreach
      rw [take_of_length_le hshort]
      exact (reachable_iff v).mpr ⟨hne, hreach⟩
    · intro hall
      by_contra hlong
      rw [Nat.not_le] at hlong
      -- The first step beyond the cap is to a node that is reachable, but not returned.
      have hbeyond : (allSteps edges outbound nodeKey depth)[impactMaxResultsPerDirection] ∈
          allSteps edges outbound nodeKey depth := getElem_mem hlong
      rcases (reachable_iff _).mp ⟨_, hbeyond, rfl⟩ with ⟨hne, hreach⟩
      rcases hall _ hne hreach with ⟨s, hs, hnode⟩
      have hsame := eq_of_nodeKey_eq (hmem s hs) hbeyond hnode
      rw [hsame] at hs
      have hdrop : (allSteps edges outbound nodeKey depth)[impactMaxResultsPerDirection] ∈
          (allSteps edges outbound nodeKey depth).drop impactMaxResultsPerDirection := by
        rw [drop_eq_getElem_cons hlong]
        exact mem_cons_self
      have hsplit := hordered
      rw [← take_append_drop impactMaxResultsPerDirection
        (allSteps edges outbound nodeKey depth)] at hsplit
      exact hirrefl _ ((pairwise_append.mp hsplit).2.2 _ hs _ hdrop)
  · rw [length_take]
    exact Nat.min_eq_left (Nat.le_of_lt (of_decide_eq_true hlimit))
  · exact ⟨_, ranking_allSteps, rfl⟩

end Exactness

end Impact

end Partha
