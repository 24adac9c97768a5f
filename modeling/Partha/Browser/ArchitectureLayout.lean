import Mathlib.Algebra.Order.Ring.Unbundled.Rat
import Mathlib.Data.Rat.Cast.Order
import Partha.Browser.LayerPositions

/-!
# The Layout of an Architecture

What the canvas shows of an architecture: which nodes and edges, and where the nodes are.

Nodes are hidden one by one or with their layer, and a root leaves only its subtree. Edges are
kept if both of their nodes are. The nodes are then placed layer by layer, and Dagre, which is a
parameter, decides only about their order within a layer.

## Main definitions

* `getLayoutedElements`: The nodes and edges on the canvas.
* `Shown`: A node that is to be on the canvas.
* `LaidOut`: Nothing was dropped, and nothing overlaps.

## Theorems

* `filterElements_spec`: The nodes and edges that are kept.
* `layout_drops_nothing`: The layout ends, and has dropped and overlapped nothing.
-/

namespace Partha

namespace ArchitectureLayout

open ArchitectureGraph LayerPositions
open Canonical (Str)
open Rectangles

section Definitions

inductive HeatmapMode where
  | none
  | usage
  | critical
  deriving DecidableEq, Repr

/-- The options, each of which may be missing. -/
structure Options where
  direction : Option Direction
  heatmapMode : Option HeatmapMode
  bookmarks : Option (List Str)
  hiddenNodes : Option (List Str)
  isolatedSubtree : Option Str
  layers : Option (List ArchLayer)
  collapsedLayers : Option (List Str)

def direction (options : Option Options) : Direction :=
  (options.bind Options.direction).getD .lr

def heatmapMode (options : Option Options) : HeatmapMode :=
  (options.bind Options.heatmapMode).getD .none

def bookmarks (options : Option Options) : List Str :=
  (options.bind Options.bookmarks).getD []

def hiddenNodes (options : Option Options) : List Str :=
  (options.bind Options.hiddenNodes).getD []

/-- The root of the subtree. An empty one is none. -/
def isolatedSubtree (options : Option Options) : Option Str :=
  (options.bind Options.isolatedSubtree).filter (fun root => root ≠ [])

def layers (options : Option Options) : List ArchLayer :=
  (options.bind Options.layers).getD []

def collapsedLayers (options : Option Options) : List Str :=
  (options.bind Options.collapsedLayers).getD []

/-- What Dagre gets. -/
structure DagreGraph where
  rankdir : Direction
  ranksep : ℚ
  nodesep : ℚ
  marginx : ℚ
  marginy : ℚ
  nodes : List (Str × ℚ × ℚ)
  edges : List (Str × Str)

structure ArchNodeData where
  label : Str
  nodeType : ArchNodeType
  layer : Str
  relationshipState : RelationshipState
  description : Str
  filesCount : Nat
  complexity : Complexity
  isSelected : Bool
  isHighlighted : Bool
  heatmapIntensity : ℚ
  isBookmarked : Bool

/-- `ArchFlowNode`, a node on the canvas. -/
structure ArchFlowNode where
  id : Str
  initialWidth : ℚ
  initialHeight : ℚ
  position : Point
  data : ArchNodeData

/-- `Edge`, an edge on the canvas. -/
structure FlowEdge where
  id : Str
  source : Str
  target : Str
  animated : Bool
  stroke : String
  deriving DecidableEq, Repr

structure Layout where
  nodes : List ArchFlowNode
  edges : List FlowEdge
  edgesLimited : Bool
  edgeCount : Nat

/-- `LARGE_GRAPH_EDGE_THRESHOLD`. -/
def largeGraphEdgeThreshold : Nat := 500

/-- `maxDeps`. -/
def maxDeps (allNodes : List ArchNode) : Nat :=
  (allNodes.map (fun n => n.dependents.length)).foldr max 1

/-- `computeHeatmapIntensity`. -/
def computeHeatmapIntensity (node : ArchNode) (allNodes : List ArchNode) (mode : HeatmapMode) :
    ℚ :=
  match mode with
  | .none => 0
  | .usage => node.dependents.length / maxDeps allNodes
  | .critical =>
    min (node.dependents.length / maxDeps allNodes * (6 / 10) +
      if node.files.length > 3 then 4 / 10 else 0) 1

/-- `getEdgeColor`. -/
def getEdgeColor (type : ArchEdgeType) : String :=
  match type with
  | .apiCall => "hsl(200, 70%, 60%)"
  | .dataFlow => "hsl(150, 60%, 50%)"
  | .event => "hsl(280, 60%, 60%)"
  | .import => "hsl(220, 40%, 55%)"
  | _ => "hsl(var(--muted-foreground))"

def flowEdge (edge : ArchEdge) : FlowEdge where
  id := edge.id
  source := edge.source
  target := edge.target
  animated := decide (edge.type = .dataFlow ∨ edge.type = .event)
  stroke := getEdgeColor edge.type

def flowNode (archNodes : List ArchNode) (options : Option Options) (place : Str → Point)
    (node : ArchNode) : ArchFlowNode where
  id := node.id
  initialWidth := archNodeWidth
  initialHeight := archNodeHeight
  position :=
    { x := (place node.id).x - archNodeWidth / 2
      y := (place node.id).y - archNodeHeight / 2 }
  data :=
    { label := node.name
      nodeType := node.type
      layer := node.layer
      relationshipState := node.relationshipState
      description := node.description
      filesCount := node.files.length
      complexity := node.estimatedComplexity
      isSelected := false
      isHighlighted := false
      heatmapIntensity := computeHeatmapIntensity node archNodes (heatmapMode options)
      isBookmarked := (bookmarks options).elem node.id }

/-- `filteredNodes` and `filteredEdges`. -/
def filterElements (fuel : Nat) (archNodes : List ArchNode) (archEdges : List ArchEdge)
    (options : Option Options) : Option (List ArchNode × List ArchEdge) :=
  let filteredNodes := archNodes.filter fun node =>
    !(hiddenNodes options).elem node.id && !(collapsedLayers options).elem node.layer
  match isolatedSubtree options with
  | none => some (filteredNodes, archEdges)
  | some root =>
    (getSubtreeIds fuel root archNodes archEdges).map fun subtreeIds =>
      (filteredNodes.filter (fun n => subtreeIds.elem n.id),
        archEdges.filter (fun e => subtreeIds.elem e.source && subtreeIds.elem e.target))

/-- The edges between nodes that are left. -/
def visibleEdges (filteredNodes : List ArchNode) (filteredEdges : List ArchEdge) :
    List ArchEdge :=
  filteredEdges.filter fun edge =>
    (filteredNodes.map ArchNode.id).elem edge.source &&
      (filteredNodes.map ArchNode.id).elem edge.target

/-- The graph for Dagre. It has no edges if there are too many. -/
def dagreGraph (options : Option Options) (filteredNodes : List ArchNode)
    (edges : List ArchEdge) : DagreGraph where
  rankdir := direction options
  ranksep := rankGap
  nodesep := nodeGap
  marginx := 40
  marginy := 40
  nodes := filteredNodes.map (fun node => (node.id, archNodeWidth, archNodeHeight))
  edges :=
    if edges.length > largeGraphEdgeThreshold then []
    else edges.map (fun edge => (edge.source, edge.target))

variable [LocaleCompare]

/-- What comes after the filters. -/
def layoutElements (dagre : DagreGraph → Str → Point) (archNodes : List ArchNode)
    (options : Option Options) (filteredNodes : List ArchNode) (filteredEdges : List ArchEdge) :
    Layout :=
  let visible := visibleEdges filteredNodes filteredEdges
  let graph := dagre (dagreGraph options filteredNodes visible)
  let layerPositions := getLayerPositions filteredNodes
    (getOrderedLayers filteredNodes (layers options)) graph (direction options)
  { nodes := filteredNodes.map
      (flowNode archNodes options (fun id => (layerPositions.lookup id).getD (graph id)))
    edges := visible.map flowEdge
    edgesLimited := decide (visible.length > largeGraphEdgeThreshold)
    edgeCount := visible.length }

/-- `getLayoutedElements`. -/
def getLayoutedElements (fuel : Nat) (dagre : DagreGraph → Str → Point)
    (archNodes : List ArchNode) (archEdges : List ArchEdge) (options : Option Options) :
    Option Layout :=
  (filterElements fuel archNodes archEdges options).map fun filtered =>
    layoutElements dagre archNodes options filtered.1 filtered.2

end Definitions

section Filters

/-- A node that is to be on the canvas: it is not hidden, its layer is not collapsed, and it is in
    the subtree if there is a root. -/
def Shown (archNodes : List ArchNode) (archEdges : List ArchEdge) (options : Option Options)
    (node : ArchNode) : Prop :=
  node.id ∉ hiddenNodes options ∧ node.layer ∉ collapsedLayers options ∧
    ∀ root, isolatedSubtree options = some root → InSubtree archNodes archEdges root node.id

variable {archNodes : List ArchNode} {archEdges : List ArchEdge}

/-- The nodes that are kept, and all edges between them. -/
theorem filterElements_spec (hids : (archNodes.map ArchNode.id).Nodup)
    (options : Option Options) :
    ∃ filteredNodes filteredEdges,
      (∀ fuel, archEdges.length + 1 ≤ fuel →
        filterElements fuel archNodes archEdges options = some (filteredNodes, filteredEdges)) ∧
      filteredNodes.Sublist archNodes ∧
      (∀ node, node ∈ filteredNodes ↔
        node ∈ archNodes ∧ Shown archNodes archEdges options node) ∧
      visibleEdges filteredNodes filteredEdges = visibleEdges filteredNodes archEdges := by
  let kept := archNodes.filter fun node =>
    !(hiddenNodes options).elem node.id && !(collapsedLayers options).elem node.layer
  have hkept : ∀ node, node ∈ kept ↔ node ∈ archNodes ∧ node.id ∉ hiddenNodes options ∧
      node.layer ∉ collapsedLayers options := by
    intro node
    simp [kept, ← Bool.not_eq_true]
  cases hroot : isolatedSubtree options with
  | none =>
    refine ⟨kept, archEdges, fun fuel _ => ?_, List.filter_sublist, fun node => ?_, rfl⟩
    · rw [filterElements, hroot]
    · rw [hkept]
      refine and_congr_right fun _ => ⟨fun h => ⟨h.1, h.2, fun root h' => ?_⟩,
        fun h => ⟨h.1, h.2.1⟩⟩
      rw [hroot] at h'
      cases h'
  | some root =>
    rcases getSubtreeIds_spec root archNodes archEdges hids with ⟨ids, hsearch, hmem⟩
    refine ⟨kept.filter (fun n => ids.elem n.id),
      archEdges.filter (fun e => ids.elem e.source && ids.elem e.target),
      fun fuel hfuel => ?_, ?_, fun node => ?_, ?_⟩
    · rw [filterElements, hroot]
      change (getSubtreeIds fuel root archNodes archEdges).map _ = _
      rw [hsearch fuel hfuel]
      rfl
    · exact List.filter_sublist.trans List.filter_sublist
    · rw [List.mem_filter, hkept, List.elem_iff, hmem, and_assoc, and_assoc]
      refine and_congr_right fun _ => and_congr_right fun _ => and_congr_right fun _ => ?_
      constructor
      · intro h root' h'
        rw [hroot] at h'
        cases h'
        exact h
      · exact fun h => h root hroot
    · -- an edge between kept nodes is an edge of the subtree
      rw [visibleEdges, List.filter_filter, visibleEdges]
      refine List.filter_congr fun e _ => ?_
      rw [Bool.and_eq_left_iff_imp, Bool.and_eq_true, Bool.and_eq_true]
      have hin : ∀ id, ((kept.filter (fun n => ids.elem n.id)).map ArchNode.id).elem id = true →
          ids.elem id = true := by
        intro id h
        rcases List.mem_map.mp (List.elem_iff.mp h) with ⟨n, hn, rfl⟩
        exact (List.mem_filter.mp hn).2
      exact fun h => ⟨hin _ h.1, hin _ h.2⟩

end Filters

section Results

/-- Each layer lists exactly the ids of its nodes. -/
def ListsExactly (archNodes : List ArchNode) (layers : List ArchLayer) : Prop :=
  ∀ layer ∈ layers, ∀ id, id ∈ layer.nodes ↔
    ∃ node ∈ archNodes, node.layer = layer.id ∧ node.id = id

/-- The rectangle of a node on the canvas. -/
def ArchFlowNode.rectangle (node : ArchFlowNode) : Rectangle ℚ where
  x := node.position.x
  y := node.position.y
  width := archNodeWidth
  height := archNodeHeight

/-- Nothing was dropped, and nothing overlaps. -/
structure LaidOut (archNodes : List ArchNode) (archEdges : List ArchEdge)
    (options : Option Options) (result : Layout) : Prop where
  /-- A node comes once. -/
  nodup : (result.nodes.map ArchFlowNode.id).Nodup
  /-- The nodes are those that are to be shown. -/
  mem_nodes : ∀ id, id ∈ result.nodes.map ArchFlowNode.id ↔
    ∃ node ∈ archNodes, node.id = id ∧ Shown archNodes archEdges options node
  /-- The edges are those between returned nodes. -/
  edges : result.edges = (archEdges.filter (fun edge =>
    (result.nodes.map ArchFlowNode.id).elem edge.source &&
      (result.nodes.map ArchFlowNode.id).elem edge.target)).map flowEdge
  /-- The rectangles have no point in common. -/
  disjoint : result.nodes.Pairwise (fun a b => Disjoint a.rectangle.points b.rectangle.points)
  /-- A node of a layer of a lower order is to the left of those of a higher one. -/
  leftOf : direction options = .lr → ∀ left ∈ archNodes, ∀ right ∈ archNodes,
    layerOrder (layers options) left.layer < layerOrder (layers options) right.layer →
      ∀ a ∈ result.nodes, ∀ b ∈ result.nodes, a.id = left.id → b.id = right.id →
        a.position.x + archNodeWidth < b.position.x

variable {archNodes : List ArchNode} {archEdges : List ArchEdge}

variable {filteredNodes : List ArchNode}

/-- Filters keep that layers list their nodes. -/
theorem ListsExactly.lists {layers : List ArchLayer} (hids : (archNodes.map ArchNode.id).Nodup)
    (h : ListsExactly archNodes layers) (hsub : filteredNodes.Sublist archNodes) :
    Lists filteredNodes layers := by
  intro layer hlayer node hnode
  rw [h layer hlayer]
  constructor
  · rintro ⟨other, hother, hname, heq⟩
    rw [← List.inj_on_of_nodup_map hids hother (hsub.subset hnode) heq]
    exact hname
  · exact fun hname => ⟨node, hsub.subset hnode, hname, rfl⟩

variable [LocaleCompare]

/-- What comes after the filters drops nothing of what they keep, and overlaps nothing. -/
theorem laidOut_layoutElements (dagre : DagreGraph → Str → Point) {options : Option Options}
    {filteredEdges : List ArchEdge} (hids : (archNodes.map ArchNode.id).Nodup)
    (hlists : ListsExactly archNodes (layers options)) (hsub : filteredNodes.Sublist archNodes)
    (hshown : ∀ node, node ∈ filteredNodes ↔
      node ∈ archNodes ∧ Shown archNodes archEdges options node)
    (hedges : visibleEdges filteredNodes filteredEdges = visibleEdges filteredNodes archEdges) :
    LaidOut archNodes archEdges options
      (layoutElements dagre archNodes options filteredNodes filteredEdges) := by
  have hkept : (filteredNodes.map ArchNode.id).Nodup := hids.sublist (hsub.map _)
  rcases positions_spec hkept (hlists.lists hids hsub)
    (dagre (dagreGraph options filteredNodes (visibleEdges filteredNodes filteredEdges)))
    (direction options) rfl with ⟨hdefined, hapart, hbefore⟩
  have hmap : (layoutElements dagre archNodes options filteredNodes filteredEdges).nodes.map
      ArchFlowNode.id = filteredNodes.map ArchNode.id := by
    rw [layoutElements, List.map_map]
    rfl
  refine ⟨?_, fun id => ?_, ?_, ?_, ?_⟩
  · rw [hmap]
    exact hkept
  · rw [hmap, List.mem_map]
    constructor
    · rintro ⟨node, hnode, rfl⟩
      exact ⟨node, ((hshown node).mp hnode).1, rfl, ((hshown node).mp hnode).2⟩
    · rintro ⟨node, hnode, rfl, h⟩
      exact ⟨node, (hshown node).mpr ⟨hnode, h⟩, rfl⟩
  · rw [hmap, layoutElements, hedges]
    rfl
  · refine List.pairwise_map.mpr ((List.pairwise_map.mp hkept).imp_of_mem ?_)
    intro a b ha hb hne
    rcases hdefined a ha with ⟨p, hp⟩
    rcases hdefined b hb with ⟨q, hq⟩
    have h := (hapart a.id b.id p q hne hp hq).disjoint
    simpa [flowNode, ArchFlowNode.rectangle, hp, hq, card] using h
  · intro hlr left hleft right hright hlt a ha b hb haid hbid
    rcases List.mem_map.mp ha with ⟨n, hn, rfl⟩
    rcases List.mem_map.mp hb with ⟨m, hm, rfl⟩
    have hn' : n = left := List.inj_on_of_nodup_map hids (hsub.subset hn) hleft haid
    have hm' : m = right := List.inj_on_of_nodup_map hids (hsub.subset hm) hright hbid
    rcases hdefined n hn with ⟨p, hp⟩
    rcases hdefined m hm with ⟨q, hq⟩
    rw [← hn', ← hm'] at hlt
    have h := hbefore n hn m hm hlt p q hp hq
    rw [hlr] at h hp hq
    simpa [flowNode, hlr, hp, hq, Before, trailing, leading, card] using h

/-- The layout ends on every graph, and has dropped and overlapped nothing. -/
theorem layout_drops_nothing (dagre : DagreGraph → Str → Point) (archNodes : List ArchNode)
    (archEdges : List ArchEdge) (options : Option Options)
    (hids : (archNodes.map ArchNode.id).Nodup)
    (hlists : ListsExactly archNodes (layers options)) :
    ∃ result, (∀ fuel, archEdges.length + 1 ≤ fuel →
        getLayoutedElements fuel dagre archNodes archEdges options = some result) ∧
      LaidOut archNodes archEdges options result := by
  rcases filterElements_spec hids options with
    ⟨filteredNodes, filteredEdges, hfilter, hsub, hshown, hedges⟩
  refine ⟨_, fun fuel hfuel => ?_, laidOut_layoutElements dagre hids hlists hsub hshown hedges⟩
  rw [getLayoutedElements, hfilter fuel hfuel]
  rfl

end Results

section Cycles

/-- Code points, which order names of small letters as a locale does. -/
@[reducible] def codePointLocale : LocaleCompare where
  localeCompare left right := compareOn (List.map Char.toNat) left right
  consistent := inferInstance

def sampleNode (id layer : Str) : ArchNode where
  id := id
  name := id
  type := .service
  description := []
  files := []
  dependents := []
  estimatedComplexity := .notComputed
  layer := layer
  relationshipState := .connected

def sampleNodes : List ArchNode :=
  [sampleNode ['a'] ['w'], sampleNode ['b'] ['d'], sampleNode ['c'] ['w']]

/-- A cycle through two of the nodes. -/
def sampleEdges : List ArchEdge :=
  [⟨['e'], ['a'], ['b'], .calls⟩, ⟨['f'], ['b'], ['a'], .calls⟩]

def sampleOptions : Options where
  direction := none
  heatmapMode := none
  bookmarks := none
  hiddenNodes := none
  isolatedSubtree := some ['a']
  layers := some [⟨['w'], some 0, [['a'], ['c']]⟩]
  collapsedLayers := none

theorem cycle_laid_out :
    ∃ result, (∀ fuel, 3 ≤ fuel → @getLayoutedElements codePointLocale fuel (fun _ _ => ⟨0, 0⟩)
        sampleNodes sampleEdges (some sampleOptions) = some result) ∧
      LaidOut sampleNodes sampleEdges (some sampleOptions) result := by
  refine @layout_drops_nothing codePointLocale (fun _ _ => ⟨0, 0⟩) sampleNodes sampleEdges
    (some sampleOptions) (by decide) ?_
  intro layer hlayer id
  rw [List.mem_singleton.mp hlayer]
  simp [sampleNodes, sampleNode, eq_comm]

end Cycles

end ArchitectureLayout

end Partha
