import Mathlib.Data.List.Induction
import Mathlib.Data.List.Nodup

/-!
# Dictionaries

A dictionary of Python: pairs in the order in which their keys came, each with the value that
was assigned last.

A dictionary that is filled from a list has a pair iff the list has it and no later pair with
its key.

## Main definitions

* `set`: `d[k] = v`.
* `ofPairs`: A dictionary that is filled from a list.

## Theorems

* `lookup_ofPairs`: The last pair with a key counts.
* `nodup_ofPairs`: A key has one pair.
* `mem_ofPairs`: The pairs that are left.
* `eq_of_lookup`: Dictionaries with the same keys and values.
-/

namespace Dict

open List

variable {κ ν : Type*} [DecidableEq κ]

/-- `d[k] = v`. -/
def set (k : κ) (v : ν) : List (κ × ν) → List (κ × ν)
  | [] => [(k, v)]
  | (k', v') :: d => if k' = k then (k', v) :: d else (k', v') :: set k v d

/-- A dictionary that is filled from a list. -/
def ofPairs (l : List (κ × ν)) : List (κ × ν) :=
  l.foldl (fun d p => set p.1 p.2 d) []

theorem set_same (k : κ) (v v' : ν) (d : List (κ × ν)) :
    set k v ((k, v') :: d) = (k, v) :: d :=
  if_pos rfl

variable {k k' : κ} {v : ν} {d l : List (κ × ν)}

theorem set_other {j : κ} (h : j ≠ k) (v v' : ν) (d : List (κ × ν)) :
    set k v ((j, v') :: d) = (j, v') :: set k v d :=
  if_neg h

theorem ofPairs_concat (l : List (κ × ν)) (p : κ × ν) :
    ofPairs (l ++ [p]) = set p.1 p.2 (ofPairs l) := by
  rw [ofPairs, foldl_concat]
  rfl

theorem mem_keys_set : k' ∈ (set k v d).map Prod.fst ↔ k' = k ∨ k' ∈ d.map Prod.fst := by
  induction d with
  | nil => simp only [set, map_cons, map_nil, mem_singleton, not_mem_nil,
      or_false]
  | cons p d ih =>
    rcases p with ⟨j, w⟩
    by_cases hj : j = k
    · rw [hj, set_same]
      simp
    · rw [set_other hj]
      simp only [map_cons, mem_cons, ih]
      exact or_left_comm

theorem nodup_set (h : (d.map Prod.fst).Nodup) : ((set k v d).map Prod.fst).Nodup := by
  induction d with
  | nil => exact nodup_singleton k
  | cons p d ih =>
    rcases p with ⟨j, w⟩
    rcases nodup_cons.mp h with ⟨hj, hd⟩
    by_cases he : j = k
    · rw [he, set_same]
      rw [he] at hj
      exact nodup_cons.mpr ⟨hj, hd⟩
    · rw [set_other he]
      refine nodup_cons.mpr ⟨?_, ih hd⟩
      exact fun hmem => (mem_keys_set.mp hmem).elim he hj

/-- A key has one pair. -/
theorem nodup_ofPairs (l : List (κ × ν)) : ((ofPairs l).map Prod.fst).Nodup := by
  induction l using List.reverseRecOn with
  | nil => exact nodup_nil
  | append_singleton l p ih =>
    rw [ofPairs_concat]
    exact nodup_set ih

theorem lookup_set [BEq κ] [LawfulBEq κ] :
    (set k v d).lookup k' = if k' = k then some v else d.lookup k' := by
  induction d with
  | nil =>
    by_cases h : k' = k
    · rw [if_pos h, set, lookup_cons, beq_iff_eq.mpr h]
    · rw [if_neg h, set, lookup_cons, beq_eq_false_iff_ne.mpr h]
  | cons p d ih =>
    rcases p with ⟨j, w⟩
    by_cases hj : j = k
    · rw [hj, set_same, lookup_cons, lookup_cons]
      by_cases h : k' = k
      · rw [if_pos h, beq_iff_eq.mpr h]
      · rw [if_neg h, beq_eq_false_iff_ne.mpr h]
    · rw [set_other hj, lookup_cons, lookup_cons, ih]
      by_cases h : k' = j
      · have hne : k' ≠ k := fun hk => hj (h.symm.trans hk)
        rw [beq_iff_eq.mpr h, if_neg hne, if_neg hne]
      · rw [beq_eq_false_iff_ne.mpr h]

/-- The last pair with a key counts. -/
theorem lookup_ofPairs [BEq κ] [LawfulBEq κ] (l : List (κ × ν)) (k : κ) :
    (ofPairs l).lookup k = l.reverse.lookup k := by
  induction l using List.reverseRecOn with
  | nil => rfl
  | append_singleton l p ih =>
    rw [ofPairs_concat, lookup_set, reverse_concat, ih]
    rcases p with ⟨j, w⟩
    rw [lookup_cons]
    by_cases h : k = j
    · rw [if_pos h, beq_iff_eq.mpr h]
    · rw [if_neg h, beq_eq_false_iff_ne.mpr h]

omit [DecidableEq κ] in
theorem mem_iff_lookup [BEq κ] [LawfulBEq κ] (h : (d.map Prod.fst).Nodup) :
    (k, v) ∈ d ↔ d.lookup k = some v := by
  induction d with
  | nil => simp only [not_mem_nil, lookup_nil, reduceCtorEq]
  | cons p d ih =>
    rcases p with ⟨j, w⟩
    rcases nodup_cons.mp h with ⟨hj, hd⟩
    rw [lookup_cons, mem_cons]
    by_cases hk : k = j
    · rw [beq_iff_eq.mpr hk]
      simp only [Prod.mk.injEq, Option.some.injEq]
      constructor
      · rintro (⟨-, rfl⟩ | hmem)
        · rfl
        · rw [hk] at hmem
          exact absurd (mem_map_of_mem hmem) hj
      · exact fun hv => .inl ⟨hk, hv.symm⟩
    · rw [beq_eq_false_iff_ne.mpr hk, ← ih hd]
      simp [hk]

omit [DecidableEq κ] in
theorem mem_of_lookup [BEq κ] [LawfulBEq κ] (h : d.lookup k = some v) : (k, v) ∈ d := by
  induction d with
  | nil => cases h
  | cons p d ih =>
    rcases p with ⟨j, w⟩
    rw [lookup_cons] at h
    by_cases hk : k = j
    · rw [beq_iff_eq.mpr hk] at h
      rw [hk, ← Option.some.inj h]
      exact mem_cons_self
    · rw [beq_eq_false_iff_ne.mpr hk] at h
      exact mem_cons_of_mem _ (ih h)

/-- The pairs that are left. -/
theorem mem_ofPairs [BEq κ] [LawfulBEq κ] : (k, v) ∈ ofPairs l ↔ l.reverse.lookup k = some v := by
  rw [mem_iff_lookup (nodup_ofPairs l), lookup_ofPairs]

theorem mem_of_lookup_ofPairs [BEq κ] [LawfulBEq κ] (h : (ofPairs l).lookup k = some v) :
    (k, v) ∈ l := by
  rw [lookup_ofPairs] at h
  exact mem_reverse.mp (mem_of_lookup h)

/-- If each key comes once, all pairs are left. -/
theorem lookup_ofPairs_of_nodup [BEq κ] [LawfulBEq κ] (h : (l.map Prod.fst).Nodup) :
    (ofPairs l).lookup k = some v ↔ (k, v) ∈ l := by
  have hreverse : (l.reverse.map Prod.fst).Nodup := by
    rw [map_reverse]
    exact nodup_reverse.mpr h
  rw [lookup_ofPairs, ← mem_iff_lookup hreverse, mem_reverse]

omit [DecidableEq κ] in
/-- Two dictionaries with the same keys in the same order, of which one has the values of the
    other. -/
theorem eq_of_lookup [BEq κ] [LawfulBEq κ] {d' : List (κ × ν)} (h : (d.map Prod.fst).Nodup)
    (hkeys : d.map Prod.fst = d'.map Prod.fst) (hvalues : ∀ p ∈ d, d'.lookup p.1 = some p.2) :
    d = d' := by
  induction d generalizing d' with
  | nil => exact (map_eq_nil_iff.mp hkeys.symm).symm
  | cons p d ih =>
    cases d' with
    | nil => cases hkeys
    | cons p' d' =>
      rcases p with ⟨k, v⟩
      rcases p' with ⟨k', v'⟩
      rcases List.cons.inj hkeys with ⟨hk, hrest⟩
      dsimp only at hk
      subst hk
      have hhead := hvalues (k, v) mem_cons_self
      rw [lookup_cons_self] at hhead
      rw [Option.some.inj hhead, ih (nodup_cons.mp h).2 hrest (fun q hq => ?_)]
      -- A later key is not the first one.
      have hne : q.1 ≠ k := by
        rintro rfl
        exact (nodup_cons.mp h).1 (mem_map.mpr ⟨q, hq, rfl⟩)
      have hlater := hvalues q (mem_cons_of_mem _ hq)
      rwa [lookup_cons, beq_eq_false_iff_ne.mpr hne] at hlater

end Dict
