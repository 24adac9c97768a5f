import Partha.Library.SortKeys

/-!
# Breadth-First Search by Levels

A search that goes on from a whole level at once. The next level is made of the arcs that lead
from the level to a vertex that has not been reached, of which the first is kept for each vertex,
in the order of a key.

The level of a vertex is the length of a shortest path to it. So the arcs that are kept do not
depend on the search: `Canonical` describes them by the graph alone, and `mem_layers` says that
the search finds these and no others. They come in the order of their level and key.

## Main definitions

* `Reach`, `Shortest`: There is a path of a length, and none is shorter.
* `layers`: The arcs that are kept, with their levels.
* `Canonical`: The first arc to a vertex from the level before it.

## Theorems

* `mem_layer`: The arcs of one level.
* `exists_canonical`: Each vertex of a level has one.
* `mem_layers`, `pairwise_layers`: What is found, and in what order.
-/

namespace BreadthFirst

open SortKeys List

variable {ν ε κ : Type*}

/-- Arcs between vertices, with a key each. -/
structure Graph (ν ε κ : Type*) where
  arcs : List ε
  source : ε → ν
  target : ε → ν
  key : ε → κ

section Paths

/-- There is a path of a length from the start. -/
inductive Reach (g : Graph ν ε κ) (start : ν) : Nat → ν → Prop
  | start : Reach g start 0 start
  | step {n : Nat} {e : ε} : e ∈ g.arcs → Reach g start n (g.source e) →
      Reach g start (n + 1) (g.target e)

/-- There is a path of a length from the start, and none is shorter. -/
def Shortest (g : Graph ν ε κ) (start : ν) (n : Nat) (v : ν) : Prop :=
  Reach g start n v ∧ ∀ m, Reach g start m v → n ≤ m

variable {g : Graph ν ε κ} {start : ν}

variable {n : Nat} {v : ν}

theorem Shortest.unique {m : Nat} (h : Shortest g start n v) (h' : Shortest g start m v) : n = m :=
  Nat.le_antisymm (h.2 m h'.1) (h'.2 n h.1)

theorem shortest_start : Shortest g start 0 start :=
  ⟨Reach.start, fun m _ => Nat.zero_le m⟩

theorem shortest_zero (h : Shortest g start 0 v) : v = start := by
  rcases h with ⟨hreach, -⟩
  cases hreach
  rfl

/-- What is reached has a shortest path. -/
theorem exists_shortest (h : Reach g start n v) : ∃ m ≤ n, Shortest g start m v := by
  induction n using Nat.strong_induction_on with
  | _ n ih =>
    by_cases hless : ∃ m < n, Reach g start m v
    · rcases hless with ⟨m, hm, hreach⟩
      rcases ih m hm hreach with ⟨k, hk, hshort⟩
      exact ⟨k, by omega, hshort⟩
    · refine ⟨n, Nat.le_refl n, h, fun m hm => Nat.le_of_not_lt (fun hlt => hless ⟨m, hlt, hm⟩)⟩

/-- A shortest path is one longer than one to a vertex before. -/
theorem Shortest.before (h : Shortest g start (n + 1) v) :
    ∃ e ∈ g.arcs, Shortest g start n (g.source e) ∧ g.target e = v := by
  rcases h with ⟨hreach, hleast⟩
  cases hreach with
  | step he hsource =>
    refine ⟨_, he, ⟨hsource, fun m hm => ?_⟩, rfl⟩
    have := hleast (m + 1) (Reach.step he hm)
    omega

/-- A vertex behind an arc is one level further, unless it has been reached. -/
theorem Shortest.after {e : ε} (h : Shortest g start n (g.source e)) (he : e ∈ g.arcs)
    (hnew : ∀ m ≤ n, ¬ Shortest g start m (g.target e)) :
    Shortest g start (n + 1) (g.target e) := by
  refine ⟨Reach.step he h.1, fun m hm => ?_⟩
  rcases exists_shortest hm with ⟨k, hk, hshort⟩
  by_contra hlt
  exact hnew k (by omega) hshort

/-- The lists of a search that has reached a level. -/
structure Front (g : Graph ν ε κ) (start : ν) (n : Nat) (frontier visited : List ν) : Prop where
  frontier : ∀ v, v ∈ frontier ↔ Shortest g start n v
  visited : ∀ v, v ∈ visited ↔ ∃ m ≤ n, Shortest g start m v

theorem front_start : Front g start 0 [start] [start] := by
  have hstart : ∀ v, v ∈ [start] ↔ Shortest g start 0 v := by
    intro v
    rw [mem_singleton]
    exact ⟨fun h => h ▸ shortest_start, shortest_zero⟩
  refine ⟨hstart, fun v => (hstart v).trans ⟨fun h => ⟨0, Nat.le_refl 0, h⟩, ?_⟩⟩
  rintro ⟨m, hm, hshort⟩
  rw [Nat.le_zero.mp hm] at hshort
  exact hshort

end Paths

section Levels

variable [LinearOrder κ]

/-- The first arc to a vertex from the level before it. -/
structure Canonical (g : Graph ν ε κ) (start : ν) (n : Nat) (e : ε) : Prop where
  mem : e ∈ g.arcs
  source : Shortest g start n (g.source e)
  target : Shortest g start (n + 1) (g.target e)
  least : ∀ e' ∈ g.arcs, Shortest g start n (g.source e') → g.target e' = g.target e →
    g.key e ≤ g.key e'

theorem exists_least (key : ε → κ) {l : List ε} (h : l ≠ []) :
    ∃ e ∈ l, ∀ e' ∈ l, key e ≤ key e' := by
  induction l with
  | nil => exact absurd rfl h
  | cons a l ih =>
    by_cases hl : l = []
    · refine ⟨a, mem_cons_self, fun e' he' => ?_⟩
      rw [hl, mem_singleton] at he'
      rw [he']
    · rcases ih hl with ⟨e, he, hleast⟩
      rcases le_total (key a) (key e) with hle | hle
      · refine ⟨a, mem_cons_self, fun e' he' => ?_⟩
        rcases mem_cons.mp he' with rfl | he'
        · exact le_refl _
        · exact le_trans hle (hleast e' he')
      · refine ⟨e, mem_cons_of_mem a he, fun e' he' => ?_⟩
        rcases mem_cons.mp he' with rfl | he'
        · exact hle
        · exact hleast e' he'

variable {n : Nat} {e : ε} {frontier visited : List ν}

/-- Each vertex of a level has a first arc from the level before. -/
theorem exists_canonical {g : Graph ν ε κ} {start : ν} {v : ν} (h : Shortest g start (n + 1) v) :
    ∃ e, Canonical g start n e ∧ g.target e = v := by
  classical
  have hne : g.arcs.filter (fun e => Shortest g start n (g.source e) ∧ g.target e = v) ≠ [] := by
    rcases h.before with ⟨e, he, hsource, htarget⟩
    exact ne_nil_of_mem (mem_filter.mpr ⟨he, decide_eq_true ⟨hsource, htarget⟩⟩)
  rcases exists_least g.key hne with ⟨e, he, hleast⟩
  rcases mem_filter.mp he with ⟨hmem, hfilter⟩
  rcases of_decide_eq_true hfilter with ⟨hsource, rfl⟩
  refine ⟨e, ⟨hmem, hsource, h, fun e' he' hsource' htarget' => ?_⟩, rfl⟩
  exact hleast e' (mem_filter.mpr ⟨he', decide_eq_true ⟨hsource', htarget'⟩⟩)

variable [DecidableEq ν]

/-- The arcs from a level to what has not been reached. -/
def candidates (g : Graph ν ε κ) (frontier visited : List ν) : List ε :=
  g.arcs.filter (fun e => g.source e ∈ frontier ∧ g.target e ∉ visited)

/-- The rank of an arc among those to its vertex. -/
def rank (g : Graph ν ε κ) (es : List ε) (e : ε) : Nat :=
  es.countP (fun e' => g.target e' = g.target e ∧ g.key e' < g.key e) + 1

/-- The arcs to the next level, in order. -/
def layer (g : Graph ν ε κ) (frontier visited : List ν) : List ε :=
  sortBy g.key ((candidates g frontier visited).filter
    (fun e => rank g (candidates g frontier visited) e = 1))

/-- The arcs to some levels, with the number of the level. -/
def layers (g : Graph ν ε κ) : Nat → Nat → List ν → List ν → List (Nat × ε)
  | 0, _, _, _ => []
  | n + 1, level, frontier, visited =>
    (layer g frontier visited).map (fun e => (level, e)) ++
      layers g n (level + 1) ((layer g frontier visited).map g.target)
        (visited ++ (layer g frontier visited).map g.target)

variable {g : Graph ν ε κ} {start : ν}

/-- From no level there is no next one. -/
theorem layers_nil (steps level : Nat) (visited : List ν) : layers g steps level [] visited =
    [] := by
  induction steps generalizing level visited with
  | zero => rfl
  | succ steps ih =>
    have hcandidates : candidates g [] visited = [] :=
      filter_eq_nil_iff.mpr (fun e _ h => not_mem_nil (of_decide_eq_true h).1)
    have hnone : layer g [] visited = [] := by
      rw [layer, hcandidates]
      rfl
    rw [layers, hnone]
    exact ih _ _

theorem rank_eq_one {es : List ε} :
    rank g es e = 1 ↔ ∀ e' ∈ es, g.target e' = g.target e → g.key e ≤ g.key e' := by
  rw [rank, Nat.add_eq_right, countP_eq_zero]
  refine forall₂_congr (fun e' _ => ?_)
  rw [decide_eq_true_eq, not_and, not_lt]

/-- The arcs of a level are those that the graph has for it. -/
theorem mem_layer (h : Front g start n frontier visited) :
    e ∈ layer g frontier visited ↔ Canonical g start n e := by
  have hcandidate : ∀ {e}, e ∈ candidates g frontier visited ↔
      e ∈ g.arcs ∧ Shortest g start n (g.source e) ∧ Shortest g start (n + 1) (g.target e) := by
    intro e
    rw [candidates, mem_filter, decide_eq_true_eq, h.frontier, h.visited]
    refine and_congr_right (fun he => and_congr_right (fun hsource => ?_))
    constructor
    · exact fun hnew => hsource.after he (fun m hm hshort => hnew ⟨m, hm, hshort⟩)
    · rintro hshort ⟨m, hm, hshort'⟩
      have := hshort.unique hshort'
      omega
  rw [layer, mem_sortBy, mem_filter, decide_eq_true_eq, rank_eq_one, hcandidate]
  constructor
  · rintro ⟨⟨he, hsource, htarget⟩, hleast⟩
    refine ⟨he, hsource, htarget, fun e' he' hsource' hsame => ?_⟩
    exact hleast e' (hcandidate.mpr ⟨he', hsource', by rw [hsame]; exact htarget⟩) hsame
  · intro hcanonical
    refine ⟨⟨hcanonical.mem, hcanonical.source, hcanonical.target⟩, fun e' he' hsame => ?_⟩
    rcases hcandidate.mp he' with ⟨hmem, hsource, -⟩
    exact hcanonical.least e' hmem hsource hsame

/-- After a level comes the next one. -/
theorem Front.next (h : Front g start n frontier visited) :
    Front g start (n + 1) ((layer g frontier visited).map g.target)
      (visited ++ (layer g frontier visited).map g.target) := by
  have hlevel : ∀ v, v ∈ (layer g frontier visited).map g.target ↔ Shortest g start (n + 1) v := by
    intro v
    rw [mem_map]
    constructor
    · rintro ⟨e, he, rfl⟩
      exact ((mem_layer h).mp he).target
    · intro hshort
      rcases exists_canonical hshort with ⟨e, he, rfl⟩
      exact ⟨e, (mem_layer h).mpr he, rfl⟩
  refine ⟨hlevel, fun v => ?_⟩
  rw [mem_append, h.visited, hlevel]
  constructor
  · rintro (⟨m, hm, hshort⟩ | hshort)
    · exact ⟨m, by omega, hshort⟩
    · exact ⟨n + 1, Nat.le_refl _, hshort⟩
  · rintro ⟨m, hm, hshort⟩
    by_cases hlast : m = n + 1
    · rw [hlast] at hshort
      exact .inr hshort
    · exact .inl ⟨m, by omega, hshort⟩

/-- What some levels have, after the first of them has been reached. -/
theorem mem_layers (steps : Nat) : ∀ {n : Nat} {frontier visited : List ν},
    Front g start n frontier visited → ∀ {level : Nat} {e : ε},
      (level, e) ∈ layers g steps (n + 1) frontier visited ↔
        ∃ m, n ≤ m ∧ m < n + steps ∧ level = m + 1 ∧ Canonical g start m e := by
  induction steps with
  | zero =>
    intro n frontier visited _ level e
    refine iff_of_false not_mem_nil ?_
    rintro ⟨m, hle, hlt, -, -⟩
    omega
  | succ steps ih =>
    intro n frontier visited h level e
    rw [layers, mem_append, ih h.next, mem_map]
    constructor
    · rintro (⟨e', he', heq⟩ | ⟨m, hle, hlt, hlevel, hcanonical⟩)
      · rcases Prod.mk.inj heq with ⟨rfl, rfl⟩
        exact ⟨n, Nat.le_refl n, by omega, rfl, (mem_layer h).mp he'⟩
      · exact ⟨m, by omega, by omega, hlevel, hcanonical⟩
    · rintro ⟨m, hle, hlt, rfl, hcanonical⟩
      by_cases hfirst : m = n
      · rw [hfirst] at hcanonical ⊢
        exact .inl ⟨e, (mem_layer h).mpr hcanonical, rfl⟩
      · exact .inr ⟨m, by omega, by omega, rfl, hcanonical⟩

/-- One level comes before the next, and the arcs of a level in the order of their keys. -/
def Before (g : Graph ν ε κ) (s t : Nat × ε) : Prop :=
  s.1 < t.1 ∨ s.1 = t.1 ∧ g.key s.2 < g.key t.2

/-- The order in which arcs are found, if they have keys of their own. -/
theorem pairwise_layers (honce : g.arcs.Nodup)
    (hkey : ∀ e ∈ g.arcs, ∀ e' ∈ g.arcs, g.key e = g.key e' → e = e') (steps : Nat) :
    ∀ {n : Nat} {frontier visited : List ν}, Front g start n frontier visited →
      (layers g steps (n + 1) frontier visited).Pairwise (Before g) := by
  induction steps with
  | zero => exact fun _ => List.Pairwise.nil
  | succ steps ih =>
    intro n frontier visited h
    rw [layers]
    refine pairwise_append.mpr ⟨?_, ih h.next, ?_⟩
    · rw [pairwise_map]
      have hnodup : (layer g frontier visited).Nodup :=
        (perm_sortBy _ _).nodup_iff.mpr ((honce.filter _).filter _)
      refine ((pairwise_sortBy g.key _).and hnodup).imp_of_mem (fun {a b} ha hb hab => ?_)
      refine .inr ⟨rfl, lt_of_le_of_ne hab.1 (fun heq => hab.2 ?_)⟩
      exact hkey a ((mem_layer h).mp ha).mem b ((mem_layer h).mp hb).mem heq
    · rintro s hs ⟨level, e⟩ ht
      rcases mem_map.mp hs with ⟨e', -, rfl⟩
      rcases (mem_layers steps h.next).mp ht with ⟨m, hle, -, rfl, -⟩
      exact .inl (by omega)

end Levels

end BreadthFirst
