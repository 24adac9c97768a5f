import Mathlib.Algebra.Order.Field.Rat
import Mathlib.Order.Compare
import Mathlib.Tactic.Linarith
import Partha.Browser.ArchitectureGraph
import Partha.Library.Dict
import Partha.Library.Ordering
import Partha.Library.Rectangles
import Partha.Library.SortKeys

/-!
# The Positions of Layers

How the nodes of an architecture are placed, layer by layer.

From left to right a layer is a band of columns: a cursor stands where the next band begins, and
a layer of more than four nodes is wrapped into about as many rows as columns. From top to bottom
a layer is one row. Numbers are exact, and what Dagre says about a node is a parameter, as is
`localeCompare`, of which only is known that it is consistent.

What carries the layout is an invariant of the loop over the layers. The cards that were placed
are apart, they end a gap before what comes next, and the cards of an earlier layer are to the
left of those of a later one.

## Main definitions

* `getOrderedLayers`: The layers of some nodes, in order.
* `getLayerPositions`: The positions of their nodes.
* `Placed`: What the loop over the layers keeps.

## Theorems

* `gridPoint_apart`, `rowPoint_apart`: The cards of one layer are apart.
* `placed_step`, `placed_run`: What a layer does to the positions, and what all of them do.
* `positions_spec`: Each node has a position, and the cards are apart and in the order of layers.
-/

namespace Partha

namespace LayerPositions

open ArchitectureGraph
open Canonical (Str)
open Rectangles
open SortKeys (sortWith)
open List

section Definitions

/-- `ARCH_NODE_WIDTH` and `ARCH_NODE_HEIGHT`. -/
def archNodeWidth : ℚ := 220

def archNodeHeight : ℚ := 112

/-- `RANK_GAP` and `NODE_GAP`. -/
def rankGap : ℚ := 50

def nodeGap : ℚ := 35

inductive Direction where
  | tb
  | lr
  deriving DecidableEq, Repr

/-- `localeCompare`, which is a consistent comparison. -/
class LocaleCompare where
  localeCompare : Str → Str → Ordering
  consistent : Std.TransCmp localeCompare

structure Point where
  x : ℚ
  y : ℚ
  deriving DecidableEq, Repr

/-- `Number.MAX_SAFE_INTEGER`. -/
def maxSafeInteger : ℚ := 9007199254740991

/-- `knownLayers`: the last layer with an id counts. -/
def knownLayer (layers : List ArchLayer) (id : Str) : Option ArchLayer :=
  (Dict.ofPairs (layers.map (fun layer => (layer.id, layer)))).lookup id

/-- The order of a layer, which may be missing. -/
def layerOrder (layers : List ArchLayer) (id : Str) : ℚ :=
  ((knownLayer layers id).bind ArchLayer.order).getD maxSafeInteger

/-- A layer that is placed. -/
structure OrderedLayer where
  id : Str
  order : ℚ
  nodes : List Str

/-- The nodes of a layer, those that it lists or those that name it. -/
def layerNodeIds (nodes : List ArchNode) (layers : List ArchLayer) (id : Str) : List Str :=
  ((knownLayer layers id).map ArchLayer.nodes).getD
    ((nodes.filter (fun node => node.layer = id)).map ArchNode.id)

/-- A layer with those of its nodes that are placed. -/
def orderedLayer (nodes : List ArchNode) (layers : List ArchLayer) (id : Str) : OrderedLayer where
  id := id
  order := layerOrder layers id
  nodes := (layerNodeIds nodes layers id).filter (nodes.map ArchNode.id).elem

/-- `Math.ceil(Math.sqrt(n))`. -/
def ceilSqrt (n : Nat) : Nat :=
  if n.sqrt * n.sqrt = n then n.sqrt else n.sqrt + 1

/-- `maxRows`. -/
def maxRows (n : Nat) : Nat :=
  if n ≤ 4 then max 1 n else max 2 (ceilSqrt n)

/-- `columnCount`. -/
def columnCount (n : Nat) : Nat :=
  max 1 ((n + (maxRows n - 1)) / maxRows n)

/-- The place of a node in the columns of its layer. -/
def gridPoint (layerCursor : ℚ) (n nodeIndex : Nat) : Point :=
  let columnIndex := nodeIndex / maxRows n
  let rowIndex := nodeIndex % maxRows n
  let rowsInColumn := min (maxRows n) (n - columnIndex * maxRows n)
  let offset := -((rowsInColumn - 1) * (archNodeHeight + nodeGap)) / 2
  { x := layerCursor + columnIndex * (archNodeWidth + nodeGap) + archNodeWidth / 2
    y := offset + rowIndex * (archNodeHeight + nodeGap) + archNodeHeight / 2 }

/-- How far the cursor goes. -/
def bandWidth (n : Nat) : ℚ :=
  columnCount n * archNodeWidth + max 0 ((columnCount n : ℚ) - 1) * nodeGap + rankGap

/-- The place of a node in the row of its layer. -/
def rowPoint (layerIndex n nodeIndex : Nat) : Point :=
  let offset := -(((n : ℚ) - 1) * (archNodeWidth + nodeGap)) / 2
  { x := offset + nodeIndex * (archNodeWidth + nodeGap) + archNodeWidth / 2
    y := layerIndex * (archNodeHeight + rankGap) + archNodeHeight / 2 }

/-- `positions` and `layerCursor`. -/
structure Placing where
  positions : List (Str × Point)
  layerCursor : ℚ

/-- The loop over the nodes of a layer. -/
def setPositions (positions : List (Str × Point)) (nodes : List ArchNode) (point : Nat → Point) :
    List (Str × Point) :=
  nodes.zipIdx.foldl (fun positions p => Dict.set p.1.id (point p.2) positions) positions

/-- The body of the loop over the layers. -/
def placeLayer (direction : Direction) (s : Placing) (layerIndex : Nat) (nodes : List ArchNode) :
    Placing :=
  match direction with
  | .lr =>
    { positions := setPositions s.positions nodes (gridPoint s.layerCursor nodes.length)
      layerCursor := s.layerCursor + bandWidth nodes.length }
  | .tb =>
    { s with positions := setPositions s.positions nodes (rowPoint layerIndex nodes.length) }

variable [LocaleCompare]

/-- The comparison of layers. -/
def compareLayers (layers : List ArchLayer) : Str → Str → Ordering :=
  compareLex (compareOn (layerOrder layers)) LocaleCompare.localeCompare

/-- `getOrderedLayers`. -/
def getOrderedLayers (nodes : List ArchNode) (layers : List ArchLayer) : List OrderedLayer :=
  (sortWith (compareLayers layers) (Ordering.distinct id [] (nodes.map ArchNode.layer))).map
    (orderedLayer nodes layers)

/-- The comparison of the nodes of a layer, by what Dagre says. -/
def compareNodes (graph : Str → Point) : ArchNode → ArchNode → Ordering :=
  compareLex (compareOn (fun node => (graph node.id).y))
    (compareLex (fun left right => LocaleCompare.localeCompare left.name right.name)
      (fun left right => LocaleCompare.localeCompare left.id right.id))

/-- `layerNodes`. -/
def layerNodes (nodes : List ArchNode) (graph : Str → Point) (layer : OrderedLayer) :
    List ArchNode :=
  sortWith (compareNodes graph)
    (layer.nodes.filterMap (fun nodeId =>
      (Dict.ofPairs (nodes.map (fun node => (node.id, node)))).lookup nodeId))

/-- `getLayerPositions`. -/
def getLayerPositions (nodes : List ArchNode) (layers : List OrderedLayer)
    (graph : Str → Point) (direction : Direction) : List (Str × Point) :=
  (layers.zipIdx.foldl (fun s p => placeLayer direction s p.2 (layerNodes nodes graph p.1))
    { positions := [], layerCursor := 0 }).positions

end Definitions

section Cards

/-- The card of a node whose center is at a point. -/
def card (p : Point) : Rectangle ℚ where
  x := p.x - archNodeWidth / 2
  y := p.y - archNodeHeight / 2
  width := archNodeWidth
  height := archNodeHeight

theorem archNodeWidth_nonneg : 0 ≤ archNodeWidth := by
  decide

theorem archNodeHeight_nonneg : 0 ≤ archNodeHeight := by
  decide

theorem archNodeWidth_lt : archNodeWidth < archNodeWidth + nodeGap :=
  lt_add_of_pos_right _ (by decide)

theorem archNodeHeight_lt : archNodeHeight < archNodeHeight + nodeGap :=
  lt_add_of_pos_right _ (by decide)

/-- Where a column of a layer begins. -/
def columnTop (n columnIndex : Nat) : ℚ :=
  -((min (maxRows n) (n - columnIndex * maxRows n) : Nat) - 1) *
    (archNodeHeight + nodeGap) / 2

theorem card_gridPoint (layerCursor : ℚ) (n i : Nat) :
    card (gridPoint layerCursor n i) =
      ⟨layerCursor + (i / maxRows n : Nat) * (archNodeWidth + nodeGap),
        columnTop n (i / maxRows n) + (i % maxRows n : Nat) * (archNodeHeight + nodeGap),
        archNodeWidth, archNodeHeight⟩ := by
  simp only [card, gridPoint, columnTop, add_sub_cancel_right, neg_mul]

theorem card_rowPoint (layerIndex n i : Nat) :
    card (rowPoint layerIndex n i) =
      ⟨-(((n : ℚ) - 1) * (archNodeWidth + nodeGap)) / 2 + i * (archNodeWidth + nodeGap),
        layerIndex * (archNodeHeight + rankGap), archNodeWidth, archNodeHeight⟩ := by
  simp [card, rowPoint]

variable {i j : Nat}

/-- The cards of a layer are apart in its columns. -/
theorem gridPoint_apart (layerCursor : ℚ) (n : Nat) (h : i ≠ j) :
    Apart (card (gridPoint layerCursor n i)) (card (gridPoint layerCursor n j)) := by
  rw [card_gridPoint, card_gridPoint]
  exact apart_cells archNodeWidth_nonneg archNodeWidth_lt archNodeHeight_nonneg
    archNodeHeight_lt layerCursor (columnTop n) (place_ne h)

/-- The cards of a layer are apart in its row. -/
theorem rowPoint_apart (layerIndex n : Nat) (h : i ≠ j) :
    Apart (card (rowPoint layerIndex n i)) (card (rowPoint layerIndex n j)) := by
  rw [card_rowPoint, card_rowPoint]
  rcases Nat.lt_or_gt_of_ne h with hlt | hlt
  · exact .inl (leftOf_columns archNodeWidth_nonneg archNodeWidth_lt _ hlt _ _ _ _ _)
  · exact .inr (.inl (leftOf_columns archNodeWidth_nonneg archNodeWidth_lt _ hlt _ _ _ _ _))

theorem maxRows_pos (n : Nat) : 0 < maxRows n := by
  unfold maxRows
  by_cases h : n ≤ 4
  · rw [if_pos h]
    omega
  · rw [if_neg h]
    omega

/-- Each node of a layer is in one of its columns. -/
theorem div_lt_columnCount {n : Nat} (h : i < n) : i / maxRows n < columnCount n := by
  have hpos := maxRows_pos n
  have hnext : i / maxRows n + 1 = (i + maxRows n) / maxRows n :=
    (Nat.add_div_right i hpos).symm
  have hle : (i + maxRows n) / maxRows n ≤ (n + (maxRows n - 1)) / maxRows n :=
    Nat.div_le_div_right (by omega)
  unfold columnCount
  omega

/-- The columns of a layer end a gap before the next layer. -/
theorem column_ends {column count : Nat} (h : column < count) :
    (column : ℚ) * (archNodeWidth + nodeGap) + archNodeWidth + rankGap ≤
      count * archNodeWidth + max 0 ((count : ℚ) - 1) * nodeGap + rankGap := by
  have hcount : (column : ℚ) + 1 ≤ count := by
    exact_mod_cast h
  have hmax : (count : ℚ) - 1 ≤ max 0 ((count : ℚ) - 1) := le_max_right _ _
  unfold archNodeWidth nodeGap rankGap
  linarith

end Cards

section Bands

/-- Where a layer begins, along the axis on which layers follow each other. -/
def bandStart (direction : Direction) (layerCursor : ℚ) (layerIndex : Nat) : ℚ :=
  match direction with
  | .lr => layerCursor
  | .tb => layerIndex * (archNodeHeight + rankGap)

/-- Where a card begins and ends along this axis. -/
def leading (direction : Direction) (r : Rectangle ℚ) : ℚ :=
  match direction with
  | .lr => r.x
  | .tb => r.y

def trailing (direction : Direction) (r : Rectangle ℚ) : ℚ :=
  match direction with
  | .lr => r.x + r.width
  | .tb => r.y + r.height

/-- One card ends before another one begins. -/
def Before (direction : Direction) (r s : Rectangle ℚ) : Prop :=
  trailing direction r < leading direction s

/-- The cursor after a layer. -/
def nextCursor (direction : Direction) (layerCursor : ℚ) (n : Nat) : ℚ :=
  match direction with
  | .lr => layerCursor + bandWidth n
  | .tb => layerCursor

/-- The place of a node of a layer. -/
def layerPoint (direction : Direction) (layerCursor : ℚ) (layerIndex n nodeIndex : Nat) : Point :=
  match direction with
  | .lr => gridPoint layerCursor n nodeIndex
  | .tb => rowPoint layerIndex n nodeIndex

theorem placeLayer_eq (direction : Direction) (s : Placing) (layerIndex : Nat)
    (nodes : List ArchNode) :
    placeLayer direction s layerIndex nodes =
      { positions := setPositions s.positions nodes
          (layerPoint direction s.layerCursor layerIndex nodes.length)
        layerCursor := nextCursor direction s.layerCursor nodes.length } := by
  cases direction with
  | tb => rfl
  | lr => rfl

theorem Before.apart {direction : Direction} {r s : Rectangle ℚ} (h : Before direction r s) :
    Apart r s := by
  cases direction with
  | tb => exact .inr (.inr (.inl h))
  | lr => exact .inl h

variable {i : Nat}

theorem layerPoint_apart (direction : Direction) (layerCursor : ℚ) (layerIndex n : Nat) {j : Nat}
    (h : i ≠ j) : Apart (card (layerPoint direction layerCursor layerIndex n i))
      (card (layerPoint direction layerCursor layerIndex n j)) := by
  cases direction with
  | tb => exact rowPoint_apart layerIndex n h
  | lr => exact gridPoint_apart layerCursor n h

/-- A card of a layer begins in it. -/
theorem start_le_leading (direction : Direction) (layerCursor : ℚ) (layerIndex n i : Nat) :
    bandStart direction layerCursor layerIndex ≤
      leading direction (card (layerPoint direction layerCursor layerIndex n i)) := by
  cases direction with
  | tb =>
    rw [layerPoint, card_rowPoint]
    exact le_refl _
  | lr =>
    rw [layerPoint, card_gridPoint]
    refine le_add_of_nonneg_right (mul_nonneg (Nat.cast_nonneg _) ?_)
    exact le_of_lt (lt_of_le_of_lt archNodeWidth_nonneg archNodeWidth_lt)

/-- A card of a layer ends a gap before the next layer. -/
theorem trailing_le_next (direction : Direction) (layerCursor : ℚ) (layerIndex : Nat) {n : Nat}
    (h : i < n) :
    trailing direction (card (layerPoint direction layerCursor layerIndex n i)) + rankGap ≤
      bandStart direction (nextCursor direction layerCursor n) (layerIndex + 1) := by
  cases direction with
  | tb =>
    rw [layerPoint, card_rowPoint]
    simp only [trailing, bandStart, Nat.cast_add, Nat.cast_one, add_mul, one_mul, add_assoc]
    exact le_refl _
  | lr =>
    rw [layerPoint, card_gridPoint]
    have hends := column_ends (div_lt_columnCount h)
    simp only [trailing, bandStart, nextCursor, bandWidth, add_assoc] at hends ⊢
    exact add_le_add_right hends layerCursor

/-- The next layer does not begin before this one. -/
theorem start_le_next (direction : Direction) (layerCursor : ℚ) (layerIndex n : Nat) :
    bandStart direction layerCursor layerIndex ≤
      bandStart direction (nextCursor direction layerCursor n) (layerIndex + 1) := by
  cases direction with
  | tb =>
    simp only [bandStart, Nat.cast_add, Nat.cast_one, add_mul, one_mul]
    exact le_add_of_nonneg_right (add_nonneg archNodeHeight_nonneg (by decide))
  | lr =>
    have hwide : 0 ≤ (columnCount n : ℚ) * archNodeWidth :=
      mul_nonneg (Nat.cast_nonneg _) archNodeWidth_nonneg
    have hgaps : 0 ≤ max 0 ((columnCount n : ℚ) - 1) * nodeGap :=
      mul_nonneg (le_max_left _ _) (by decide)
    exact le_add_of_nonneg_right (add_nonneg (add_nonneg hwide hgaps) (by decide))

end Bands

section Positions

theorem setPositions_concat (positions : List (Str × Point)) (nodes : List ArchNode)
    (node : ArchNode) (point : Nat → Point) :
    setPositions positions (nodes ++ [node]) point =
      Dict.set node.id (point nodes.length) (setPositions positions nodes point) := by
  simp [setPositions, zipIdx_append]

variable {positions : List (Str × Point)} {nodes : List ArchNode} {point : Nat → Point} {id : Str}
  {direction : Direction} {done : List (List ArchNode)} {s : Placing}

/-- A node of a layer has the place of its number, the last one if there are more. -/
theorem lookup_setPositions (h : id ∈ nodes.map ArchNode.id) :
    ∃ i, (nodes.map ArchNode.id)[i]? = some id ∧
      (setPositions positions nodes point).lookup id = some (point i) := by
  induction nodes using List.reverseRecOn with
  | nil => cases h
  | append_singleton nodes node ih =>
    rw [setPositions_concat, Dict.lookup_set, map_append]
    by_cases heq : id = node.id
    · refine ⟨nodes.length, ?_, if_pos heq⟩
      rw [List.getElem?_append_right (le_of_eq (length_map _)), length_map,
        Nat.sub_self, heq]
      rfl
    · rw [map_append, mem_append] at h
      rcases h with h | h
      · rcases ih h with ⟨i, hi, hpoint⟩
        refine ⟨i, ?_, (if_neg heq).trans hpoint⟩
        rw [List.getElem?_append_left (List.getElem?_eq_some_iff.mp hi).1, hi]
      · exact absurd (mem_singleton.mp h) heq

/-- Other nodes stay where they are. -/
theorem lookup_setPositions_of_notMem (h : id ∉ nodes.map ArchNode.id) :
    (setPositions positions nodes point).lookup id = positions.lookup id := by
  induction nodes using List.reverseRecOn with
  | nil => rfl
  | append_singleton nodes node ih =>
    rw [map_append, mem_append, not_or] at h
    have hne : id ≠ node.id := fun heq => h.2 (mem_singleton.mpr heq)
    rw [setPositions_concat, Dict.lookup_set, if_neg hne, ih h.1]

/-- What the loop over the layers keeps. The cards that were placed are apart, they end a gap
    before what comes next, and those of earlier layers come before those of later ones. -/
structure Placed (direction : Direction) (done : List (List ArchNode)) (s : Placing) : Prop where
  defined : ∀ id, (∃ p, s.positions.lookup id = some p) ↔
    ∃ nodes ∈ done, id ∈ nodes.map ArchNode.id
  apart : ∀ a b p q, a ≠ b → s.positions.lookup a = some p → s.positions.lookup b = some q →
    Apart (card p) (card q)
  ends : ∀ a p, s.positions.lookup a = some p →
    trailing direction (card p) + rankGap ≤ bandStart direction s.layerCursor done.length
  ordered : done.Pairwise (fun earlier later => ∀ a ∈ earlier.map ArchNode.id,
    ∀ b ∈ later.map ArchNode.id, ∀ p q, s.positions.lookup a = some p →
      s.positions.lookup b = some q → Before direction (card p) (card q))

/-- No node is in two layers. -/
def Separate (earlier later : List ArchNode) : Prop :=
  ∀ a ∈ earlier.map ArchNode.id, a ∉ later.map ArchNode.id

theorem placed_start (direction : Direction) :
    Placed direction [] { positions := [], layerCursor := 0 } where
  defined id := by
    simp
  apart a b p q _ ha := by
    cases ha
  ends a p ha := by
    cases ha
  ordered := List.Pairwise.nil

theorem placed_step (h : Placed direction done s) (nodes : List ArchNode)
    (hfresh : ∀ earlier ∈ done, Separate earlier nodes) :
    Placed direction (done ++ [nodes]) (placeLayer direction s done.length nodes) := by
  rw [placeLayer_eq]
  -- a node of the layer has one of its places, and other nodes keep theirs
  have hnew : ∀ a p, a ∈ nodes.map ArchNode.id →
      (setPositions s.positions nodes
        (layerPoint direction s.layerCursor done.length nodes.length)).lookup a = some p →
      ∃ i, (nodes.map ArchNode.id)[i]? = some a ∧
        p = layerPoint direction s.layerCursor done.length nodes.length i := by
    intro a p ha hp
    rcases lookup_setPositions ha with ⟨i, hi, hpoint⟩
    exact ⟨i, hi, Option.some.inj (hp.symm.trans hpoint)⟩
  have hold : ∀ a p, a ∉ nodes.map ArchNode.id →
      (setPositions s.positions nodes
        (layerPoint direction s.layerCursor done.length nodes.length)).lookup a = some p →
      s.positions.lookup a = some p :=
    fun a p ha hp => (lookup_setPositions_of_notMem ha).symm.trans hp
  have hbefore : ∀ a b p q, a ∉ nodes.map ArchNode.id → b ∈ nodes.map ArchNode.id →
      (setPositions s.positions nodes
        (layerPoint direction s.layerCursor done.length nodes.length)).lookup a = some p →
      (setPositions s.positions nodes
        (layerPoint direction s.layerCursor done.length nodes.length)).lookup b = some q →
      Before direction (card p) (card q) := by
    intro a b p q ha hb hp hq
    rcases hnew b q hb hq with ⟨j, -, rfl⟩
    have hends := h.ends a p (hold a p ha hp)
    have hgap : trailing direction (card p) < trailing direction (card p) + rankGap :=
      lt_add_of_pos_right _ (by decide)
    exact lt_of_lt_of_le hgap (le_trans hends (start_le_leading direction _ _ _ _))
  refine ⟨fun id => ?_, fun a b p q hne hp hq => ?_, fun a p hp => ?_, ?_⟩
  · by_cases hid : id ∈ nodes.map ArchNode.id
    · rcases lookup_setPositions hid with ⟨i, -, hpoint⟩
      exact iff_of_true ⟨_, hpoint⟩
        ⟨nodes, mem_append_right _ (mem_singleton_self _), hid⟩
    · rw [lookup_setPositions_of_notMem hid, h.defined]
      constructor
      · rintro ⟨earlier, hmem, hin⟩
        exact ⟨earlier, mem_append_left _ hmem, hin⟩
      · rintro ⟨earlier, hmem, hin⟩
        rcases mem_append.mp hmem with hmem | hmem
        · exact ⟨earlier, hmem, hin⟩
        · rw [mem_singleton.mp hmem] at hin
          exact absurd hin hid
  · by_cases ha : a ∈ nodes.map ArchNode.id
    · by_cases hb : b ∈ nodes.map ArchNode.id
      · rcases hnew a p ha hp with ⟨i, hi, rfl⟩
        rcases hnew b q hb hq with ⟨j, hj, rfl⟩
        refine layerPoint_apart direction _ _ _ fun hij => hne ?_
        rw [hij, hj] at hi
        exact (Option.some.inj hi).symm
      · exact (hbefore b a q p hb ha hq hp).apart.symm
    · by_cases hb : b ∈ nodes.map ArchNode.id
      · exact (hbefore a b p q ha hb hp hq).apart
      · exact h.apart a b p q hne (hold a p ha hp) (hold b q hb hq)
  · rw [length_append, length_singleton]
    by_cases ha : a ∈ nodes.map ArchNode.id
    · rcases hnew a p ha hp with ⟨i, hi, rfl⟩
      have hlt := (List.getElem?_eq_some_iff.mp hi).1
      rw [length_map] at hlt
      exact trailing_le_next direction _ _ hlt
    · exact le_trans (h.ends a p (hold a p ha hp)) (start_le_next direction _ _ _)
  · refine pairwise_append.mpr ⟨?_, pairwise_singleton _ _, ?_⟩
    · refine h.ordered.imp_of_mem fun hearlier hlater hrel a ha b hb p q hp hq => ?_
      exact hrel a ha b hb p q (hold a p (hfresh _ hearlier a ha) hp)
        (hold b q (hfresh _ hlater b hb) hq)
    · intro earlier hearlier later hlater a ha b hb p q hp hq
      rw [mem_singleton.mp hlater] at hb
      exact hbefore a b p q (hfresh earlier hearlier a ha) hb hp hq

theorem placed_run {α : Type*} (f : α → List ArchNode) (layers : List α)
    (h : Placed direction done s) (hseparate : (done ++ layers.map f).Pairwise Separate) :
    Placed direction (done ++ layers.map f)
      ((layers.zipIdx done.length).foldl (fun s p => placeLayer direction s p.2 (f p.1)) s) := by
  induction layers generalizing done s with
  | nil =>
    rw [map_nil, append_nil]
    exact h
  | cons layer layers ih =>
    rw [map_cons, append_cons] at hseparate ⊢
    have hstep := placed_step h (f layer) fun earlier hearlier => by
      have hdone := (pairwise_append.mp hseparate).1
      exact (pairwise_append.mp hdone).2.2 earlier hearlier _ (mem_singleton_self _)
    have hrun := ih hstep hseparate
    rw [length_append, length_singleton] at hrun
    rw [zipIdx_cons, foldl_cons]
    exact hrun

end Positions

section Layers

variable [LocaleCompare]

instance : Std.TransCmp LocaleCompare.localeCompare :=
  LocaleCompare.consistent

variable {nodes : List ArchNode} {layers : List ArchLayer}

/-- Each layer lists the nodes that name it. -/
def Lists (nodes : List ArchNode) (layers : List ArchLayer) : Prop :=
  ∀ layer ∈ layers, ∀ node ∈ nodes, node.id ∈ layer.nodes ↔ node.layer = layer.id

omit [LocaleCompare] in
theorem knownLayer_some {id : Str} {layer : ArchLayer} (h : knownLayer layers id = some layer) :
    layer ∈ layers ∧ layer.id = id := by
  rcases mem_map.mp (Dict.mem_of_lookup_ofPairs h) with ⟨layer', hmem, hpair⟩
  rcases Prod.mk.inj hpair with ⟨rfl, rfl⟩
  exact ⟨hmem, rfl⟩

variable {node : ArchNode}

omit [LocaleCompare] in
theorem mem_layerNodeIds (hids : (nodes.map ArchNode.id).Nodup) (hlists : Lists nodes layers)
    {id : Str} (h : node ∈ nodes) : node.id ∈ layerNodeIds nodes layers id ↔ node.layer = id := by
  unfold layerNodeIds
  cases hknown : knownLayer layers id with
  | some layer =>
    rcases knownLayer_some hknown with ⟨hmem, rfl⟩
    exact hlists layer hmem node h
  | none =>
    change node.id ∈ (nodes.filter (fun node => node.layer = id)).map ArchNode.id ↔ _
    rw [mem_map]
    constructor
    · rintro ⟨other, hother, heq⟩
      rcases mem_filter.mp hother with ⟨hmem, hlayer⟩
      rw [← inj_on_of_nodup_map hids hmem h heq]
      exact of_decide_eq_true hlayer
    · exact fun hlayer => ⟨node, mem_filter.mpr ⟨h, decide_eq_true hlayer⟩, rfl⟩

omit [LocaleCompare] in
theorem lookup_node (hids : (nodes.map ArchNode.id).Nodup) {id : Str} :
    (Dict.ofPairs (nodes.map (fun node => (node.id, node)))).lookup id = some node ↔
      node ∈ nodes ∧ node.id = id := by
  have hkeys : ((nodes.map (fun node => (node.id, node))).map Prod.fst).Nodup := by
    rw [map_map]
    exact hids
  rw [Dict.lookup_ofPairs_of_nodup hkeys, mem_map]
  constructor
  · rintro ⟨node', hmem, hpair⟩
    rcases Prod.mk.inj hpair with ⟨rfl, rfl⟩
    exact ⟨hmem, rfl⟩
  · rintro ⟨hmem, rfl⟩
    exact ⟨node, hmem, rfl⟩

/-- The nodes of a layer that are placed are those that name it. -/
theorem mem_layerNodes (hids : (nodes.map ArchNode.id).Nodup) (hlists : Lists nodes layers)
    (graph : Str → Point) (id : Str) :
    node ∈ layerNodes nodes graph (orderedLayer nodes layers id) ↔
      node ∈ nodes ∧ node.layer = id := by
  unfold layerNodes
  rw [SortKeys.mem_sortWith, mem_filterMap]
  constructor
  · rintro ⟨nodeId, hlisted, hlookup⟩
    rcases (lookup_node hids).mp hlookup with ⟨hmem, rfl⟩
    exact ⟨hmem, (mem_layerNodeIds hids hlists hmem).mp (mem_filter.mp hlisted).1⟩
  · rintro ⟨hmem, hlayer⟩
    refine ⟨node.id, mem_filter.mpr ⟨?_, ?_⟩, (lookup_node hids).mpr ⟨hmem, rfl⟩⟩
    · exact (mem_layerNodeIds hids hlists hmem).mpr hlayer
    · exact elem_eq_true_of_mem (mem_map_of_mem hmem)

/-- The ids of the layers, in order. -/
def sortedLayerIds (nodes : List ArchNode) (layers : List ArchLayer) : List Str :=
  sortWith (compareLayers layers) (Ordering.distinct id [] (nodes.map ArchNode.layer))

theorem mem_sortedLayerIds {id : Str} :
    id ∈ sortedLayerIds nodes layers ↔ ∃ node ∈ nodes, node.layer = id := by
  rw [sortedLayerIds, SortKeys.mem_sortWith, Ordering.mem_distinct Function.injective_id,
    mem_map]
  exact and_iff_left not_mem_nil

theorem nodup_sortedLayerIds : (sortedLayerIds nodes layers).Nodup :=
  (SortKeys.perm_sortWith _ _).nodup_iff.mpr (Ordering.nodup_distinct Function.injective_id [] _)

theorem pairwise_sortedLayerIds : (sortedLayerIds nodes layers).Pairwise
    (fun a b => layerOrder layers a ≤ layerOrder layers b) := by
  have htrans : Std.TransCmp (compareLayers layers) := by
    unfold compareLayers
    infer_instance
  refine (SortKeys.pairwise_sortWith (compareLayers layers) _).imp fun hle => ?_
  rw [compareLayers, compareLex, Ordering.isLE_then_iff_and] at hle
  exact compare_le_iff_le.mp (Ordering.isLE_iff_ne_gt.mp hle.1)

/-- The nodes of the layers, in order. -/
def nodesByLayer (nodes : List ArchNode) (layers : List ArchLayer) (graph : Str → Point) :
    List (List ArchNode) :=
  (sortedLayerIds nodes layers).map fun id => layerNodes nodes graph (orderedLayer nodes layers id)

theorem separate_nodesByLayer (hids : (nodes.map ArchNode.id).Nodup)
    (hlists : Lists nodes layers) (graph : Str → Point) :
    (nodesByLayer nodes layers graph).Pairwise Separate := by
  refine pairwise_map.mpr (nodup_sortedLayerIds.imp fun hne x hx hy => ?_)
  rcases mem_map.mp hx with ⟨a, ha, rfl⟩
  rcases mem_map.mp hy with ⟨b, hb, hab⟩
  have ha' := (mem_layerNodes hids hlists graph _).mp ha
  have hb' := (mem_layerNodes hids hlists graph _).mp hb
  rw [inj_on_of_nodup_map hids hb'.1 ha'.1 hab] at hb'
  exact hne (ha'.2.symm.trans hb'.2)

/-- What the loop over the layers keeps holds of the positions. -/
theorem placed_positions (hids : (nodes.map ArchNode.id).Nodup) (hlists : Lists nodes layers)
    (graph : Str → Point) (direction : Direction) :
    ∃ s, Placed direction (nodesByLayer nodes layers graph) s ∧
      s.positions = getLayerPositions nodes (getOrderedLayers nodes layers) graph direction := by
  have hrun := placed_run
    (fun id => layerNodes nodes graph (orderedLayer nodes layers id))
    (sortedLayerIds nodes layers) (placed_start direction)
    (separate_nodesByLayer hids hlists graph)
  refine ⟨_, hrun, ?_⟩
  rw [getLayerPositions, getOrderedLayers, zipIdx_map, foldl_map]
  rfl

/-- Each node has a position. The cards are apart, and those of a layer of a lower order come
    before those of a layer of a higher one. -/
theorem positions_spec (hids : (nodes.map ArchNode.id).Nodup) (hlists : Lists nodes layers)
    (graph : Str → Point) (direction : Direction) {positions : List (Str × Point)}
    (hpositions : positions = getLayerPositions nodes (getOrderedLayers nodes layers) graph
      direction) :
    (∀ node ∈ nodes, ∃ p, positions.lookup node.id = some p) ∧
      (∀ a b p q, a ≠ b → positions.lookup a = some p → positions.lookup b = some q →
        Apart (card p) (card q)) ∧
      ∀ a ∈ nodes, ∀ b ∈ nodes, layerOrder layers a.layer < layerOrder layers b.layer →
        ∀ p q, positions.lookup a.id = some p → positions.lookup b.id = some q →
          Before direction (card p) (card q) := by
  rcases placed_positions hids hlists graph direction with ⟨s, hplaced, hs⟩
  rw [hpositions, ← hs]
  have hlayer : ∀ node ∈ nodes, node.layer ∈ sortedLayerIds nodes layers :=
    fun node hmem => mem_sortedLayerIds.mpr ⟨node, hmem, rfl⟩
  have hlisted : ∀ node ∈ nodes, node.id ∈
      (layerNodes nodes graph (orderedLayer nodes layers node.layer)).map ArchNode.id :=
    fun node hmem => mem_map_of_mem ((mem_layerNodes hids hlists graph _).mpr ⟨hmem, rfl⟩)
  refine ⟨fun node hmem => ?_, hplaced.apart, fun a ha b hb hlt => ?_⟩
  · exact (hplaced.defined node.id).mpr
      ⟨_, mem_map_of_mem (hlayer node hmem), hlisted node hmem⟩
  · exact SortKeys.rel_of_key_lt pairwise_sortedLayerIds (pairwise_map.mp hplaced.ordered)
      (hlayer a ha) (hlayer b hb) hlt a.id (hlisted a ha) b.id (hlisted b hb)

end Layers

end LayerPositions

end Partha
