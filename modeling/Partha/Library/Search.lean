import Mathlib.Data.List.Nodup
import Mathlib.Data.List.Perm.Subperm
import Mathlib.Logic.Relation
import Partha.Library.Checked
import Partha.Library.Rows

/-!
# Breadth-first Search

A search that remembers the edge by which it came to each key, and the pruning of its
tree back from the keys that are wanted.

The search visits a key once, along the first usable edge that it meets. The edges that it
took are a tree. `climb` goes up in it from a wanted key, and what remains are the edges to
the keys that some climb has passed.

Both loops take fuel, and neither needs more than the number of keys that are targets.

## Main definitions

* `Graph`: The edges out of each key, in the order in which they are looked at.
* `loop`: The search.
* `climb`: The way up from a key.
* `edgesUsed`: The edges of the tree on a way to a wanted key.

## Theorems

* `edgesUsed_terminates`: Some fuel is enough, and more of it changes nothing.
* `edgesUsed_spec`: The edges are usable, lie on ways to wanted keys, lead to every wanted
  key that can be reached, and each starts where an earlier one ends.
-/

namespace Search

open List

/-- A graph whose edges may be unusable, and what is wanted in it. -/
structure Graph (κ ε : Type*) where
  out : κ → List ε
  source : ε → κ
  target : ε → κ
  usable : ε → Bool
  wanted : κ → Bool
  out_source : ∀ k, ∀ e ∈ out k, source e = k

/-- What the search has seen. `parent` tells for a key from where it was reached. -/
structure State (κ ε : Type*) where
  visited : List κ
  parent : List (κ × κ × ε)
  discovered : List ε
  found : List κ
  queue : List κ

variable {κ ε : Type*} [DecidableEq κ] (G : Graph κ ε)

/-- Look at one edge. -/
def visit (current : κ) (s : State κ ε) (e : ε) : State κ ε :=
  if G.target e ∈ s.visited then s
  else if G.usable e then {
    visited := G.target e :: s.visited
    parent := s.parent ++ [(G.target e, current, e)]
    discovered := s.discovered ++ [e]
    found := if G.wanted (G.target e) then s.found ++ [G.target e] else s.found
    queue := s.queue ++ [G.target e] }
  else s

/-- Look at the edges out of the key at the head of the queue. -/
def expand (s : State κ ε) (k : κ) (rest : List κ) : State κ ε :=
  (G.out k).foldl (visit G k) { s with queue := rest }

/-- The search, until the queue is empty. -/
def loop : Nat → State κ ε → Option (State κ ε)
  | 0, s => match s.queue with
    | [] => some s
    | _ :: _ => none
  | fuel + 1, s => match s.queue with
    | [] => some s
    | k :: rest => loop fuel (expand G s k rest)

def start (g : κ) : State κ ε :=
  ⟨[g], [], [], [], [g]⟩

/-- The keys from one up to the root. -/
def climb (parent : List (κ × κ × ε)) : Nat → κ → Option (List κ)
  | 0, k => match parent.lookup k with
    | none => some []
    | some _ => none
  | fuel + 1, k => match parent.lookup k with
    | none => some []
    | some (k', _) => (climb parent fuel k').map (k :: ·)

/-- The edges of the tree that lead to a key which a climb has passed. -/
def edgesUsed (fuel : Nat) (g : κ) : Option (List ε) :=
  (loop G fuel (start g)).bind fun s =>
    (s.found.mapM (climb s.parent fuel)).map fun used =>
      s.discovered.filter (fun e => used.flatten.elem (G.target e))

/-- One usable edge. -/
def Step (k k' : κ) : Prop :=
  ∃ e ∈ G.out k, G.usable e = true ∧ G.target e = k'

def Reaches : κ → κ → Prop :=
  Relation.ReflTransGen (Step G)

/-- Each edge starts at the root or where an earlier one ends. -/
def Grown (g : κ) (l : List ε) : Prop :=
  ∀ before e after, l = before ++ e :: after →
    G.source e = g ∨ ∃ e' ∈ before, G.target e' = G.source e

variable {G}

section Loop

/-- An invariant of the search holds when it ends, and then the queue is empty. -/
theorem loop_invariant {I : State κ ε → Prop}
    (hstep : ∀ s k rest, I s → s.queue = k :: rest → I (expand G s k rest)) (fuel : Nat) :
    ∀ {s t : State κ ε}, loop G fuel s = some t → I s → I t ∧ t.queue = [] := by
  induction fuel with
  | zero =>
    intro s t h hs
    unfold loop at h
    split at h
    · rename_i hqueue
      cases h
      exact ⟨hs, hqueue⟩
    · cases h
  | succ fuel ih =>
    intro s t h hs
    unfold loop at h
    split at h
    · rename_i hqueue
      cases h
      exact ⟨hs, hqueue⟩
    · rename_i k rest hqueue
      exact ih h (hstep s k rest hs hqueue)

theorem loop_mono (fuel more : Nat) : ∀ {s t : State κ ε}, loop G fuel s = some t →
    loop G (fuel + more) s = some t := by
  induction fuel with
  | zero =>
    intro s t h
    unfold loop at h
    split at h
    · rename_i hqueue
      unfold loop
      cases more with
      | zero => simp only [hqueue, h]
      | succ more => simp only [hqueue, h]
    · cases h
  | succ fuel ih =>
    intro s t h
    rw [Nat.succ_add]
    unfold loop at h ⊢
    split at h
    · exact h
    · exact ih h

/-- What more edges do: keys that are visited or queued stay so, and a new key is queued. -/
structure Extends (s s' : State κ ε) : Prop where
  visited : ∀ k ∈ s.visited, k ∈ s'.visited
  queue : ∀ k ∈ s.queue, k ∈ s'.queue
  fresh : ∀ k ∈ s'.visited, k ∈ s.visited ∨ k ∈ s'.queue
  queued : ∀ k ∈ s'.queue, k ∈ s.queue ∨ k ∈ s'.visited

omit [DecidableEq κ] in
theorem Extends.refl (s : State κ ε) : Extends s s :=
  ⟨fun _ h => h, fun _ h => h, fun _ h => .inl h, fun _ h => .inl h⟩

variable {s : State κ ε}

omit [DecidableEq κ] in
theorem Extends.trans {t u : State κ ε} (h : Extends s t) (h' : Extends t u) : Extends s u := by
  refine ⟨fun k hk => h'.visited k (h.visited k hk), fun k hk => h'.queue k (h.queue k hk),
    fun k hk => ?_, fun k hk => ?_⟩
  · rcases h'.fresh k hk with hk | hk
    · rcases h.fresh k hk with hk | hk
      · exact .inl hk
      · exact .inr (h'.queue k hk)
    · exact .inr hk
  · rcases h'.queued k hk with hk | hk
    · rcases h.queued k hk with hk | hk
      · exact .inl hk
      · exact .inr (h'.visited k hk)
    · exact .inr hk

theorem visit_extends (current : κ) (s : State κ ε) (e : ε) :
    Extends s (visit G current s e) := by
  unfold visit
  split
  · exact Extends.refl s
  split
  · refine ⟨fun k hk => mem_cons_of_mem _ hk, fun k hk => mem_append_left _ hk,
      fun k hk => ?_, fun k hk => ?_⟩
    · rcases mem_cons.mp hk with hk | hk
      · exact .inr (mem_append_right _ (by rw [hk]; exact mem_singleton_self _))
      · exact .inl hk
    · rcases mem_append.mp hk with hk | hk
      · exact .inl hk
      · rw [mem_singleton.mp hk]
        exact .inr mem_cons_self
  · exact Extends.refl s

theorem visit_seen (current : κ) (s : State κ ε) (e : ε) (h : G.usable e = true) :
    G.target e ∈ (visit G current s e).visited := by
  unfold visit
  by_cases hmem : G.target e ∈ s.visited
  · rw [if_pos hmem]
    exact hmem
  · rw [if_neg hmem, if_pos h]
    exact mem_cons_self

theorem foldl_extends (current : κ) (es : List ε) : ∀ s : State κ ε,
    Extends s (es.foldl (visit G current) s) ∧
      ∀ e ∈ es, G.usable e = true → G.target e ∈ (es.foldl (visit G current) s).visited := by
  induction es with
  | nil =>
    intro s
    exact ⟨Extends.refl s, fun e he => absurd he not_mem_nil⟩
  | cons e es ih =>
    intro s
    have hrest := ih (visit G current s e)
    refine ⟨(visit_extends current s e).trans hrest.1, fun e' he' husable => ?_⟩
    rcases mem_cons.mp he' with he' | he'
    · rw [he'] at husable ⊢
      exact hrest.1.visited _ (visit_seen current s e husable)
    · exact hrest.2 e' he' husable

/-- The keys that are visited but not queued have no usable edge out of the visited keys. -/
structure Frontier (s : State κ ε) : Prop where
  queued : ∀ k ∈ s.queue, k ∈ s.visited
  closed : ∀ k ∈ s.visited, k ∈ s.queue ∨
    ∀ e ∈ G.out k, G.usable e = true → G.target e ∈ s.visited

omit [DecidableEq κ] in
theorem frontier_start (g : κ) : Frontier (G := G) (start g) :=
  ⟨fun _ hk => hk, fun _ hk => .inl hk⟩

theorem frontier_expand {k : κ} {rest : List κ} (h : Frontier (G := G) s)
    (hqueue : s.queue = k :: rest) : Frontier (G := G) (expand G s k rest) := by
  have hext := foldl_extends (G := G) k (G.out k) { s with queue := rest }
  refine ⟨fun k' hk' => ?_, fun k' hk' => ?_⟩
  · rcases hext.1.queued k' hk' with hrest | hvisited
    · refine hext.1.visited k' (h.queued k' ?_)
      rw [hqueue]
      exact mem_cons_of_mem k hrest
    · exact hvisited
  · rcases hext.1.fresh k' hk' with hold | hnew
    · rcases h.closed k' hold with hin | hclosed
      · rw [hqueue] at hin
        rcases mem_cons.mp hin with hin | hin
        · rw [hin]
          exact .inr hext.2
        · exact .inl (hext.1.queue k' hin)
      · exact .inr (fun e he husable => hext.1.visited _ (hclosed e he husable))
    · exact .inl hnew

end Loop

section Termination

/-- The keys of `U` that are not visited, and those that wait. -/
def weight (U : List κ) (s : State κ ε) : Nat :=
  (U.filter (fun k => !s.visited.elem k)).length + s.queue.length

variable {U : List κ}

theorem weight_visit (current : κ) (s : State κ ε) {e : ε} (he : G.target e ∈ U) :
    weight U (visit G current s e) ≤ weight U s := by
  unfold visit
  split
  · exact Nat.le_refl _
  rename_i hnew
  split
  · have hfilter : U.filter (fun k => !(G.target e :: s.visited).elem k) =
        (U.filter (fun k => !s.visited.elem k)).filter (fun k => k ≠ G.target e) := by
      rw [filter_filter]
      refine filter_congr (fun k _ => ?_)
      by_cases hk : k = G.target e
      · simp [hk]
      · simp [hk]
    have hlt : ((U.filter (fun k => !s.visited.elem k)).filter (fun k => k ≠ G.target e)).length <
        (U.filter (fun k => !s.visited.elem k)).length := by
      refine length_filter_lt_length_iff_exists.mpr ⟨G.target e, ?_, ?_⟩
      · refine mem_filter.mpr ⟨he, ?_⟩
        simp [hnew]
      · simp
    unfold weight
    simp only [hfilter, length_append, length_singleton]
    omega
  · exact Nat.le_refl _

theorem weight_foldl (current : κ) (es : List ε) (he : ∀ e ∈ es, G.target e ∈ U) :
    ∀ s : State κ ε, weight U (es.foldl (visit G current) s) ≤ weight U s := by
  induction es with
  | nil => exact fun s => Nat.le_refl _
  | cons e es ih =>
    intro s
    exact Nat.le_trans (ih (fun e' he' => he e' (mem_cons_of_mem e he')) _)
      (weight_visit current s (he e mem_cons_self))

/-- Each step takes a key from the queue, and puts only new keys there. -/
theorem loop_terminates (hU : ∀ k, ∀ e ∈ G.out k, G.target e ∈ U) (fuel : Nat) :
    ∀ s : State κ ε, weight U s ≤ fuel → ∃ t, loop G fuel s = some t := by
  induction fuel with
  | zero =>
    intro s hs
    have hqueue : s.queue = [] := by
      unfold weight at hs
      exact eq_nil_of_length_eq_zero (by omega)
    exact ⟨s, by unfold loop; rw [hqueue]⟩
  | succ fuel ih =>
    intro s hs
    unfold loop
    cases hqueue : s.queue with
    | nil => exact ⟨s, rfl⟩
    | cons k rest =>
      refine ih _ ?_
      have hle := weight_foldl k (G.out k) (hU k) { s with queue := rest }
      have hone : weight U { s with queue := rest } + 1 = weight U s := by
        change (U.filter (fun k => !s.visited.elem k)).length + rest.length + 1 =
          (U.filter (fun k => !s.visited.elem k)).length + s.queue.length
        rw [hqueue, length_cons]
        omega
      exact Nat.le_trans hle (by omega)

end Termination

section Tree

/-- The edges that were taken are a tree, and `parent` is read off them. -/
structure Tree (g : κ) (s : State κ ε) : Prop where
  visited : ∀ k, k ∈ s.visited ↔ k = g ∨ ∃ e ∈ s.discovered, G.target e = k
  parent : s.parent = s.discovered.map (fun e => (G.target e, G.source e, e))
  found : s.found = (s.discovered.map G.target).filter G.wanted
  root : ∀ e ∈ s.discovered, G.target e ≠ g
  nodup : (s.discovered.map G.target).Nodup
  usable : ∀ e ∈ s.discovered, G.usable e = true ∧ e ∈ G.out (G.source e)
  grown : Grown G g s.discovered

variable {g k : κ} {e : ε} {s : State κ ε}

omit [DecidableEq κ] in
theorem grown_concat {l : List ε} (h : Grown G g l)
    (he : G.source e = g ∨ ∃ e' ∈ l, G.target e' = G.source e) : Grown G g (l ++ [e]) := by
  intro before e' after hsplit
  rcases eq_nil_or_concat after with hnil | ⟨after', last, hlast⟩
  · rw [hnil] at hsplit
    rcases append_inj' hsplit rfl with ⟨hbefore, hone⟩
    rw [← hbefore, ← (List.cons.inj hone).1]
    exact he
  · rw [hlast, concat_eq_append, ← cons_append, ← append_assoc] at hsplit
    exact h before e' after' (append_inj' hsplit rfl).1

omit [DecidableEq κ] in
theorem tree_start (g : κ) : Tree (G := G) g (start g) where
  visited := by
    intro k
    constructor
    · intro hk
      exact .inl (mem_singleton.mp hk)
    · intro hk
      rcases hk with hk | ⟨e, he, _⟩
      · exact mem_singleton.mpr hk
      · cases he
  parent := rfl
  found := rfl
  root := fun e he => absurd he not_mem_nil
  nodup := nodup_nil
  usable := fun e he => absurd he not_mem_nil
  grown := by
    intro before e after hsplit
    exact absurd hsplit.symm (append_ne_nil_of_right_ne_nil _ (cons_ne_nil _ _))

theorem tree_visit (h : Tree (G := G) g s) {current : κ} (hsource : G.source e = current)
    (hout : e ∈ G.out current) (hvisited : current ∈ s.visited) :
    Tree (G := G) g (visit G current s e) := by
  unfold visit
  by_cases hmem : G.target e ∈ s.visited
  · rw [if_pos hmem]
    exact h
  rw [if_neg hmem]
  by_cases husable : G.usable e = true
  · rw [if_pos husable]
    -- the target is new: neither the start nor the target of a discovered edge
    have hnew : G.target e ≠ g ∧ ∀ e' ∈ s.discovered, G.target e' ≠ G.target e := by
      refine ⟨fun he => hmem ((h.visited _).mpr (.inl he)), fun e' he' hsame => ?_⟩
      exact hmem ((h.visited _).mpr (.inr ⟨e', he', hsame⟩))
    refine ⟨fun k => ?_, ?_, ?_, fun e' he' => ?_, ?_, fun e' he' => ?_, ?_⟩
    · rw [mem_cons, h.visited k]
      constructor
      · intro hk
        rcases hk with hk | hk | ⟨e', he', hk⟩
        · exact .inr ⟨e, mem_append_right _ (mem_singleton_self e), hk.symm⟩
        · exact .inl hk
        · exact .inr ⟨e', mem_append_left _ he', hk⟩
      · intro hk
        rcases hk with hk | ⟨e', he', hk⟩
        · exact .inr (.inl hk)
        · rcases mem_append.mp he' with he' | he'
          · exact .inr (.inr ⟨e', he', hk⟩)
          · rw [mem_singleton.mp he'] at hk
            exact .inl hk.symm
    · simp [h.parent, hsource]
    -- it is appended to what is found if it is wanted
    · simp only [map_append, map_cons, map_nil, filter_append, h.found]
      by_cases hwanted : G.wanted (G.target e) = true
      · rw [if_pos hwanted, filter_cons_of_pos hwanted, filter_nil]
      · rw [if_neg hwanted, filter_cons_of_neg hwanted, filter_nil, append_nil]
    · rcases mem_append.mp he' with he' | he'
      · exact h.root e' he'
      · rw [mem_singleton.mp he']
        exact hnew.1
    · rw [map_append, map_cons, map_nil, nodup_append]
      refine ⟨h.nodup, nodup_singleton _, fun k hk k' hk' he => ?_⟩
      rcases mem_map.mp hk with ⟨e', he', hke⟩
      rw [mem_singleton.mp hk', ← hke] at he
      exact hnew.2 e' he' he
    · rcases mem_append.mp he' with he' | he'
      · exact h.usable e' he'
      · rw [mem_singleton.mp he', hsource]
        exact ⟨husable, hout⟩
    -- its source is the node being visited, which was discovered before
    · refine grown_concat h.grown ?_
      rw [hsource]
      exact (h.visited current).mp hvisited
  · rw [if_neg husable]
    exact h

theorem tree_expand (h : Tree (G := G) g s) (rest : List κ) (hk : k ∈ s.visited) :
    Tree (G := G) g (expand G s k rest) := by
  have hloop : ∀ es : List ε, (∀ e ∈ es, e ∈ G.out k) → ∀ s : State κ ε, Tree (G := G) g s →
      k ∈ s.visited → Tree (G := G) g (es.foldl (visit G k) s) := by
    intro es
    induction es with
    | nil => exact fun _ s hs _ => hs
    | cons e es ih =>
      intro hes s hs hk
      have he := hes e mem_cons_self
      refine ih (fun e' he' => hes e' (mem_cons_of_mem e he')) _
        (tree_visit hs (G.out_source k e he) he hk) ?_
      exact (visit_extends k s e).visited k hk
  refine hloop (G.out k) (fun e he => he) { s with queue := rest } ?_ hk
  exact ⟨h.visited, h.parent, h.found, h.root, h.nodup, h.usable, h.grown⟩

omit [DecidableEq κ] in
/-- Where the search has been can be reached. -/
theorem Tree.reaches (h : Tree (G := G) g s) (hk : k ∈ s.visited) : Reaches G g k := by
  -- Along the list of edges, each starts where an earlier one ends.
  have hprefix : ∀ n before after, before.length ≤ n → s.discovered = before ++ after →
      ∀ e ∈ before, Reaches G g (G.target e) := by
    intro n
    induction n with
    | zero =>
      intro before after hlen _ e he
      rw [eq_nil_of_length_eq_zero (Nat.le_zero.mp hlen)] at he
      cases he
    | succ n ih =>
      intro before after hlen hsplit e he
      rcases append_of_mem he with ⟨left, right, hbefore⟩
      have hmem : e ∈ s.discovered := by
        rw [hsplit]
        exact mem_append_left _ he
      have hstep : Step G (G.source e) (G.target e) :=
        ⟨e, (h.usable e hmem).2, (h.usable e hmem).1, rfl⟩
      have hwhole : s.discovered = left ++ e :: (right ++ after) := by
        rw [hsplit, hbefore, append_assoc, cons_append]
      rcases h.grown left e (right ++ after) hwhole with hg | ⟨e', he', hg⟩
      · rw [← hg]
        exact Relation.ReflTransGen.single hstep
      · have hshort : left.length ≤ n := by
          rw [hbefore, length_append, length_cons] at hlen
          omega
        have hreach := ih left (e :: (right ++ after)) hshort hwhole e' he'
        rw [hg] at hreach
        exact hreach.tail hstep
  rcases (h.visited k).mp hk with hk | ⟨e, he, hk⟩
  · rw [hk]
    exact Relation.ReflTransGen.refl
  · rw [← hk]
    exact hprefix s.discovered.length s.discovered [] (Nat.le_refl _)
      (append_nil _).symm e he

omit [DecidableEq κ] in
/-- A search that is over has visited all that can be reached. -/
theorem Frontier.complete (h : Frontier (G := G) s) (hqueue : s.queue = []) (hg : g ∈ s.visited)
    (hk : Reaches G g k) : k ∈ s.visited := by
  induction hk with
  | refl => exact hg
  | tail _ hstep ih =>
    rcases hstep with ⟨e, he, husable, hke⟩
    rcases h.closed _ ih with hin | hclosed
    · rw [hqueue] at hin
      cases hin
    · rw [← hke]
      exact hclosed e he husable

/-- What a search that is over has seen. -/
theorem loop_spec {fuel : Nat} {t : State κ ε} (h : loop G fuel (start g) = some t) :
    Tree (G := G) g t ∧ ∀ k, k ∈ t.visited ↔ Reaches G g k := by
  have hinv := loop_invariant (I := fun s => Tree (G := G) g s ∧ Frontier (G := G) s)
    (fun s k rest hs hqueue => ⟨tree_expand hs.1 rest (hs.2.queued k (by
      rw [hqueue]
      exact mem_cons_self)), frontier_expand hs.2 hqueue⟩) fuel h
    ⟨tree_start g, frontier_start g⟩
  rcases hinv with ⟨⟨htree, hfrontier⟩, hqueue⟩
  have hg : g ∈ t.visited := (htree.visited g).mpr (.inl rfl)
  exact ⟨htree, fun k => ⟨htree.reaches, hfrontier.complete hqueue hg⟩⟩

end Tree

section Climb

theorem climb_mono (parent : List (κ × κ × ε)) (fuel more : Nat) : ∀ {k : κ} {l : List κ},
    climb parent fuel k = some l → climb parent (fuel + more) k = some l := by
  induction fuel with
  | zero =>
    intro k l h
    unfold climb at h
    split at h
    · rename_i hlookup
      cases more with
      | zero => simp only [climb, hlookup, h]
      | succ more => simp only [climb, hlookup, h]
    · cases h
  | succ fuel ih =>
    intro k l h
    rw [Nat.succ_add]
    unfold climb at h ⊢
    split at h
    · exact h
    · rcases Option.map_eq_some_iff.mp h with ⟨l', hl', hcons⟩
      rw [ih hl', Option.map_some, hcons]

variable {g : κ} {s : State κ ε} {α β : Type*} {f : α → Option β} {l : List α}

theorem Tree.lookup (h : Tree (G := G) g s) (k : κ) :
    s.parent.lookup k =
      (s.discovered.find? (fun e => G.target e = k)).map (fun e => (G.source e, e)) := by
  rw [h.parent]
  exact Rows.lookup_map s.discovered k

/-- The keys of a climb: each was reached from the root or from another of them. -/
structure Way (g : κ) (s : State κ ε) (l : List κ) (k : κ) : Prop where
  start : k ∈ l
  up : ∀ u ∈ l, ∃ e ∈ s.discovered, G.target e = u ∧ (G.source e = g ∨ G.source e ∈ l)
  down : ∀ u ∈ l, Reaches G u k

/-- A climb ends, since each edge starts where an earlier one ends. -/
theorem Tree.climb_way (h : Tree (G := G) g s) (fuel : Nat) :
    ∀ before e after, s.discovered = before ++ e :: after → before.length < fuel →
      ∃ l, climb s.parent fuel (G.target e) = some l ∧ Way (G := G) g s l (G.target e) := by
  induction fuel with
  | zero =>
    intro before e after _ hlen
    exact absurd hlen (Nat.not_lt_zero _)
  | succ fuel ih =>
    intro before e after hsplit hlen
    have hmem : e ∈ s.discovered := by
      rw [hsplit]
      exact mem_append_right _ mem_cons_self
    have hlookup : s.parent.lookup (G.target e) = some (G.source e, e) := by
      rw [h.lookup, (Rows.find?_eq_some h.nodup).mpr ⟨hmem, rfl⟩, Option.map_some]
    have hstep : Step G (G.source e) (G.target e) :=
      ⟨e, (h.usable e hmem).2, (h.usable e hmem).1, rfl⟩
    unfold climb
    rw [hlookup]
    rcases h.grown before e after hsplit with hg | ⟨e', he', hg⟩
    -- the edge leaves the start, where the climb ends
    · have hroot : climb s.parent fuel (G.source e) = some [] := by
        have hnone : s.parent.lookup g = none := by
          rw [h.lookup, Option.map_eq_none_iff, List.find?_eq_none]
          intro e'' he'' hsame
          exact h.root e'' he'' (of_decide_eq_true hsame)
        rw [hg]
        cases fuel with
        | zero => simp only [climb, hnone]
        | succ fuel => simp only [climb, hnone]
      refine ⟨[G.target e], by simp [hroot], mem_singleton_self _,
        fun u hu => ?_, fun u hu => ?_⟩
      · rw [mem_singleton.mp hu]
        exact ⟨e, hmem, rfl, .inl hg⟩
      · rw [mem_singleton.mp hu]
        exact Relation.ReflTransGen.refl
    -- its source was discovered earlier: the way to it is shorter and is extended by this edge
    · rcases append_of_mem he' with ⟨left, right, hbefore⟩
      have hwhole : s.discovered = left ++ e' :: (right ++ e :: after) := by
        rw [hsplit, hbefore, append_assoc, cons_append]
      have hshort : left.length < fuel := by
        rw [hbefore, length_append, length_cons] at hlen
        omega
      rcases ih left e' (right ++ e :: after) hwhole hshort with ⟨l, hl, hway⟩
      rw [hg] at hl hway
      refine ⟨G.target e :: l, by simp [hl], mem_cons_self,
        fun u hu => ?_, fun u hu => ?_⟩
      · rcases mem_cons.mp hu with hu | hu
        · rw [hu]
          exact ⟨e, hmem, rfl, .inr (mem_cons_of_mem _ hway.start)⟩
        · rcases hway.up u hu with ⟨e'', he'', hu', hup⟩
          exact ⟨e'', he'', hu', hup.imp id (mem_cons_of_mem _)⟩
      · rcases mem_cons.mp hu with hu | hu
        · rw [hu]
          exact Relation.ReflTransGen.refl
        · exact (hway.down u hu).tail hstep

omit [DecidableEq κ] in
theorem mapM_some {P : α → β → Prop} (h : ∀ a ∈ l, ∃ b, f a = some b ∧ P a b) :
    ∃ bs, l.mapM f = some bs ∧ List.Forall₂ P l bs := by
  induction l with
  | nil => exact ⟨[], rfl, List.Forall₂.nil⟩
  | cons a l ih =>
    rcases h a mem_cons_self with ⟨b, hb, hP⟩
    rcases ih (fun a' ha' => h a' (mem_cons_of_mem a ha')) with ⟨bs, hbs, hall⟩
    refine ⟨b :: bs, ?_, List.Forall₂.cons hP hall⟩
    rw [mapM_cons, hb, hbs]
    rfl

omit [DecidableEq κ] in
theorem mapM_congr {f' : α → Option β} {bs : List β} (h : l.mapM f = some bs)
    (hf : ∀ a ∈ l, ∀ b, f a = some b → f' a = some b) : l.mapM f' = some bs := by
  induction l generalizing bs with
  | nil => exact h
  | cons a l ih =>
    rw [mapM_cons] at h
    cases hb : f a with
    | none =>
      rw [hb] at h
      cases h
    | some b =>
      cases hbs : l.mapM f with
      | none =>
        rw [hb, hbs] at h
        cases h
      | some bs' =>
        rw [hb, hbs] at h
        rw [mapM_cons, hf a mem_cons_self b hb,
          ih hbs (fun a' ha' => hf a' (mem_cons_of_mem a ha'))]
        exact h

end Climb

section Results

/-- The edges on ways from the root to what is wanted. -/
structure Used (G : Graph κ ε) (g : κ) (l : List ε) : Prop where
  edges : ∀ e ∈ l, G.usable e = true ∧ e ∈ G.out (G.source e) ∧ Reaches G g (G.source e) ∧
    ∃ k, G.wanted k = true ∧ Reaches G (G.target e) k
  complete : ∀ k, G.wanted k = true → Reaches G g k → k ≠ g → ∃ e ∈ l, G.target e = k
  grown : Grown G g l

omit [DecidableEq κ] in
theorem grown_filter {g : κ} {l : List ε} {p : ε → Bool} (h : Grown G g l)
    (hp : ∀ e ∈ l, p e = true → ∀ e' ∈ l, G.target e' = G.source e → G.source e ≠ g →
      p e' = true) : Grown G g (l.filter p) := by
  intro before e after hsplit
  rcases filter_eq_append_iff.mp hsplit with ⟨left, right, hl, hleft, hright⟩
  rcases filter_eq_cons_iff.mp hright with ⟨skipped, rest, hrest, hskip, hpe, _⟩
  have hwhole : l = (left ++ skipped) ++ e :: rest := by
    rw [hl, hrest, append_assoc]
  by_cases hg : G.source e = g
  · exact .inl hg
  rcases h (left ++ skipped) e rest hwhole with hroot | ⟨e', he', htarget⟩
  · exact absurd hroot hg
  have hmem : e ∈ l := by
    rw [hwhole]
    exact mem_append_right _ mem_cons_self
  have hmem' : e' ∈ l := by
    rw [hwhole]
    exact mem_append_left _ he'
  have hkept := hp e hmem hpe e' hmem' htarget hg
  rcases mem_append.mp he' with he' | he'
  · refine .inr ⟨e', ?_, htarget⟩
    rw [← hleft]
    exact mem_filter.mpr ⟨he', hkept⟩
  · exact absurd hkept (hskip e' he')

/-- The search ends, the climbs end, and the edges that remain are those on ways to what is
    wanted. -/
theorem edgesUsed_spec {U : List κ} (hU : ∀ k, ∀ e ∈ G.out k, G.target e ∈ U) (g : κ) :
    ∃ l, Used G g l ∧ ∀ fuel, U.length + 1 ≤ fuel → edgesUsed G fuel g = some l := by
  have hweight : weight U (start g : State κ ε) ≤ U.length + 1 :=
    Nat.add_le_add_right (length_filter_le _ _) 1
  rcases loop_terminates hU (U.length + 1) (start g) hweight with ⟨t, ht⟩
  rcases loop_spec ht with ⟨htree, hvisited⟩
  have hlen : t.discovered.length ≤ U.length := by
    rw [← length_map (f := G.target)]
    refine (subperm_of_subset htree.nodup (fun k hk => ?_)).length_le
    rcases mem_map.mp hk with ⟨e, he, hke⟩
    rw [← hke]
    exact hU _ e (htree.usable e he).2
  have hfound : ∀ k ∈ t.found, ∃ l, climb t.parent (U.length + 1) k = some l ∧
      Way (G := G) g t l k := by
    intro k hk
    rw [htree.found] at hk
    rcases mem_map.mp (mem_of_mem_filter hk) with ⟨e, he, hke⟩
    rcases append_of_mem he with ⟨before, after, hsplit⟩
    rw [← hke]
    refine htree.climb_way _ before e after hsplit ?_
    rw [hsplit, length_append, length_cons] at hlen
    omega
  rcases mapM_some hfound with ⟨ways, hways, hall⟩
  refine ⟨t.discovered.filter (fun e => ways.flatten.elem (G.target e)), ?_, fun fuel hfuel => ?_⟩
  · have hin : ∀ u, ways.flatten.elem u = true → ∃ l ∈ ways, u ∈ l ∧
        ∃ k ∈ t.found, Way (G := G) g t l k := by
      intro u hu
      rcases mem_flatten.mp (elem_iff.mp hu) with ⟨l, hl, hul⟩
      rcases Checked.forall₂_mem_right hall hl with ⟨k, hk, hway⟩
      exact ⟨l, hl, hul, k, hk, hway⟩
    refine ⟨fun e he => ?_, fun k hwanted hreach hne => ?_, ?_⟩
    · rcases mem_filter.mp he with ⟨hmem, hused⟩
      rcases hin _ hused with ⟨l, hl, hul, k, hk, hway⟩
      have hsource : G.source e ∈ t.visited := by
        rcases append_of_mem hmem with ⟨before, after, hsplit⟩
        rcases htree.grown before e after hsplit with hg | ⟨e', he', hg⟩
        · exact (htree.visited _).mpr (.inl hg)
        · refine (htree.visited _).mpr (.inr ⟨e', ?_, hg⟩)
          rw [hsplit]
          exact mem_append_left _ he'
      rw [htree.found] at hk
      exact ⟨(htree.usable e hmem).1, (htree.usable e hmem).2, (hvisited _).mp hsource, k,
        (mem_filter.mp hk).2, hway.down _ hul⟩
    · rcases (htree.visited k).mp ((hvisited k).mpr hreach) with hroot | ⟨e, he, hke⟩
      · exact absurd hroot hne
      have hk : k ∈ t.found := by
        rw [htree.found]
        exact mem_filter.mpr ⟨mem_map.mpr ⟨e, he, hke⟩, hwanted⟩
      rcases Checked.forall₂_mem_left hall hk with ⟨l, hl, hway⟩
      refine ⟨e, mem_filter.mpr ⟨he, elem_iff.mpr ?_⟩, hke⟩
      rw [hke]
      exact mem_flatten.mpr ⟨l, hl, hway.start⟩
    · refine grown_filter htree.grown (fun e he hused e' he' htarget hne => ?_)
      rcases hin _ hused with ⟨l, hl, hul, k, hk, hway⟩
      -- The climb that passed the end of `e` took `e`, which is the only edge to it.
      rcases hway.up _ hul with ⟨e'', he'', hsame, hup⟩
      rw [Rows.eq_of_key_eq htree.nodup he'' he hsame] at hup
      rcases hup with hroot | hup
      · exact absurd hroot hne
      · rw [htarget]
        exact elem_iff.mpr (mem_flatten.mpr ⟨l, hl, hup⟩)
  · rcases Nat.le.dest hfuel with ⟨more, hmore⟩
    rw [← hmore]
    unfold edgesUsed
    rw [loop_mono _ more ht, Option.bind_some,
      mapM_congr hways (fun k _ l hl => climb_mono t.parent _ more hl), Option.map_some]

end Results

end Search
