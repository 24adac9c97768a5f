import Mathlib.Algebra.GroupWithZero.Nat
import Mathlib.Data.List.Induction
import Mathlib.Data.List.Nodup
import Mathlib.Tactic.ByContra

/-!
# Grouping

A loop that puts the elements of a list into groups, `setdefault(key, []).append(a)`.

An element without a key is passed over. The groups come in the order in which their
keys were met first, and the elements of a group in their order in the list. What a
group is does not depend on the loop: it is the elements of its key.

## Main definitions

* `insert`: One element is put into its group.
* `groups`: All of them are.
* `group`: The elements of a key.

## Theorems

* `mem_groups`: The groups are those of the keys that occur.
* `nodup_groups`: There is one for each key.
* `filter_groups`: The group of a key is the only one.
* `flatMap_filter_groups`: What the group of a key has.
* `sum_length_groups`: Together they have the elements that have a key.
-/

namespace Grouping

open List

variable {α κ : Type*} [DecidableEq κ]

/-- Put an element into the group of its key, and open the group if there is none. -/
def insert (k : κ) (a : α) : List (κ × List α) → List (κ × List α)
  | [] => [(k, [a])]
  | (k', as) :: gs => if k' = k then (k', as ++ [a]) :: gs else (k', as) :: insert k a gs

/-- The groups after a list of elements. -/
def groups (key : α → Option κ) (l : List α) : List (κ × List α) :=
  l.foldl (fun gs a => match key a with
    | none => gs
    | some k => insert k a gs) []

/-- The elements of a key. -/
def group (key : α → Option κ) (l : List α) (k : κ) : List α :=
  l.filter (fun a => key a = some k)

theorem insert_nil (k : κ) (a : α) : insert k a [] = [(k, [a])] :=
  rfl

theorem insert_same (k : κ) (a : α) (as : List α) (gs : List (κ × List α)) :
    insert k a ((k, as) :: gs) = (k, as ++ [a]) :: gs :=
  if_pos rfl

variable {k k' : κ} {a : α} {gs : List (κ × List α)} {as l : List α} {key : α → Option κ}

theorem insert_other {j : κ} (h : j ≠ k) (a : α) (as : List α) (gs : List (κ × List α)) :
    insert k a ((j, as) :: gs) = (j, as) :: insert k a gs :=
  if_neg h

theorem mem_keys_insert : k' ∈ (insert k a gs).map Prod.fst ↔ k' = k ∨ k' ∈ gs.map Prod.fst := by
  induction gs with
  | nil => simp only [insert_nil, map_cons, map_nil, mem_singleton, not_mem_nil,
      or_false]
  | cons g gs ih =>
    rcases g with ⟨j, as⟩
    by_cases hj : j = k
    · rw [hj, insert_same]
      simp
    · rw [insert_other hj]
      simp only [map_cons, mem_cons, ih]
      exact or_left_comm

theorem nodup_keys_insert (h : (gs.map Prod.fst).Nodup) : ((insert k a gs).map Prod.fst).Nodup := by
  induction gs with
  | nil => exact nodup_singleton k
  | cons g gs ih =>
    rcases g with ⟨j, as⟩
    simp only [map_cons, nodup_cons] at h
    by_cases hj : j = k
    · rw [hj, insert_same]
      simp only [map_cons, nodup_cons]
      rw [← hj]
      exact h
    · rw [insert_other hj]
      simp only [map_cons, nodup_cons]
      refine ⟨fun hmem => ?_, ih h.2⟩
      rcases mem_keys_insert.mp hmem with he | hmem
      · exact hj he
      · exact h.1 hmem

/-- The other groups stay as they are. -/
theorem mem_insert_other (h : k' ≠ k) : (k', as) ∈ insert k a gs ↔ (k', as) ∈ gs := by
  induction gs with
  | nil => simp only [insert_nil, mem_singleton, Prod.mk.injEq, h, false_and, not_mem_nil]
  | cons g gs ih =>
    rcases g with ⟨j, bs⟩
    by_cases hj : j = k
    · rw [hj, insert_same]
      simp [h]
    · rw [insert_other hj, mem_cons, mem_cons, ih]

/-- The group of the key is opened, or it gets the element at its end. -/
theorem mem_insert_same (h : (gs.map Prod.fst).Nodup) :
    (k, as) ∈ insert k a gs ↔
      k ∉ gs.map Prod.fst ∧ as = [a] ∨ ∃ bs, (k, bs) ∈ gs ∧ as = bs ++ [a] := by
  induction gs with
  | nil =>
    simp only [insert_nil, mem_singleton, Prod.mk.injEq, true_and, map_nil,
      not_mem_nil, not_false_eq_true, false_and, exists_const, or_false]
  | cons g gs ih =>
    rcases g with ⟨j, cs⟩
    simp only [map_cons, nodup_cons] at h
    by_cases hj : j = k
    · rw [hj] at h ⊢
      have hout : ∀ bs, (k, bs) ∉ gs := fun bs hbs => h.1 (mem_map_of_mem (f := Prod.fst) hbs)
      rw [insert_same]
      simp [hout]
    · have hne : k ≠ j := fun e => hj e.symm
      rw [insert_other hj]
      simp only [mem_cons, Prod.mk.injEq, hne, false_and, false_or, map_cons]
      exact ih h.2

theorem groups_concat (key : α → Option κ) (l : List α) (a : α) :
    groups key (l ++ [a]) = match key a with
      | none => groups key l
      | some k => insert k a (groups key l) := by
  simp [groups]

theorem nodup_groups (key : α → Option κ) (l : List α) :
    ((groups key l).map Prod.fst).Nodup := by
  induction l using List.reverseRecOn with
  | nil => exact nodup_nil
  | append_singleton l a ih =>
    rw [groups_concat]
    cases key a with
    | none => exact ih
    | some k => exact nodup_keys_insert ih

/-- A group is not empty, and it is the elements of its key. -/
theorem mem_groups : (k, as) ∈ groups key l ↔ as ≠ [] ∧ as = group key l k := by
  induction l using List.reverseRecOn generalizing k as with
  | nil =>
    simp only [groups, foldl_nil, not_mem_nil, group, filter_nil, false_iff]
    exact fun h => h.1 h.2
  | append_singleton l a ih =>
    have hgroup : group key (l ++ [a]) k =
        group key l k ++ if key a = some k then [a] else [] := by
      simp [group, filter_cons]
    rw [groups_concat, hgroup]
    cases hkey : key a with
    | none =>
      rw [if_neg (by simp), append_nil]
      exact ih
    | some k' =>
      by_cases hk : k' = k
      · have hkeys : k ∉ (groups key l).map Prod.fst ↔ group key l k = [] := by
          constructor
          · intro hout
            by_contra hne
            exact hout (mem_map_of_mem (f := Prod.fst) (ih.mpr ⟨hne, rfl⟩))
          · intro hnil hmem
            rcases mem_map.mp hmem with ⟨⟨j, bs⟩, hbs, rfl⟩
            exact (ih.mp hbs).1 ((ih.mp hbs).2.trans hnil)
        simp only [hk, if_true, mem_insert_same (nodup_groups key l), hkeys]
        constructor
        · rintro (⟨hnil, ha⟩ | ⟨bs, hbs, ha⟩)
          · rw [ha, hnil]
            exact ⟨cons_ne_nil _ _, rfl⟩
          · rw [ha, ← (ih.mp hbs).2]
            exact ⟨append_ne_nil_of_right_ne_nil _ (cons_ne_nil _ _), rfl⟩
        · rintro ⟨-, ha⟩
          by_cases hnil : group key l k = []
          · rw [hnil] at ha
            exact .inl ⟨hnil, ha⟩
          · exact .inr ⟨_, ih.mpr ⟨hnil, rfl⟩, ha⟩
      · rw [if_neg (fun e => hk (Option.some.inj e)), append_nil]
        simp only [mem_insert_other (fun e : k = k' => hk e.symm)]
        exact ih

/-- The group of a key is the only one. -/
theorem filter_groups (h : group key l k ≠ []) :
    (groups key l).filter (fun g => g.1 = k) = [(k, group key l k)] := by
  have hmem : (k, group key l k) ∈ groups key l := mem_groups.mpr ⟨h, rfl⟩
  have hnodup : ((groups key l).filter (fun g => decide (g.1 = k))).Nodup :=
    (List.Nodup.of_map Prod.fst (nodup_groups key l)).filter _
  refine perm_singleton.mp
    ((perm_ext_iff_of_nodup hnodup (nodup_singleton _)).mpr (fun g => ?_))
  rw [mem_filter, mem_singleton, decide_eq_true_eq]
  constructor
  · rintro ⟨hg, hk⟩
    rcases g with ⟨j, as⟩
    simp only at hk
    subst hk
    rw [(mem_groups.mp hg).2]
  · rintro rfl
    exact ⟨hmem, rfl⟩

/-- What the group of a key has, wherever the groups are. -/
theorem flatMap_filter_groups (hp : gs.Perm (groups key l)) (k : κ) :
    (gs.filter (fun g => g.1 = k)).flatMap Prod.snd = group key l k := by
  have hfilter := hp.filter (fun g => decide (g.1 = k))
  by_cases h : group key l k = []
  · have hnil : (groups key l).filter (fun g => g.1 = k) = [] := by
      refine filter_eq_nil_iff.mpr (fun g hg hk => ?_)
      rw [decide_eq_true_eq] at hk
      rcases g with ⟨j, as⟩
      subst hk
      exact (mem_groups.mp hg).1 ((mem_groups.mp hg).2.trans h)
    rw [hnil] at hfilter
    rw [hfilter.eq_nil, h]
    rfl
  · rw [filter_groups h] at hfilter
    rw [perm_singleton.mp hfilter, flatMap_singleton]

theorem sum_length_insert (k : κ) (a : α) (gs : List (κ × List α)) :
    ((insert k a gs).map (fun g => g.2.length)).sum =
      (gs.map (fun g => g.2.length)).sum + 1 := by
  induction gs with
  | nil => rfl
  | cons g gs ih =>
    rcases g with ⟨j, as⟩
    by_cases hj : j = k
    · rw [hj, insert_same]
      simp only [map_cons, sum_cons, length_append, length_singleton]
      omega
    · rw [insert_other hj]
      simp only [map_cons, sum_cons, ih]
      omega

/-- The groups together have the elements that have a key. -/
theorem sum_length_groups (key : α → Option κ) (l : List α) :
    ((groups key l).map (fun g => g.2.length)).sum = l.countP (fun a => (key a).isSome) := by
  induction l using List.reverseRecOn with
  | nil => rfl
  | append_singleton l a ih =>
    rw [groups_concat, countP_append, countP_singleton, ← ih]
    cases key a with
    | none => rfl
    | some k => exact sum_length_insert k a _

end Grouping
