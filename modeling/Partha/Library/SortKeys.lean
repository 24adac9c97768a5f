import Mathlib.Data.List.Sort
import Mathlib.Data.List.Dedup
import Mathlib.Data.List.Lex

/-!
# Sorting by a Key

A stable sort by a key, and when the order of what is sorted does not matter.

If the key tells the elements of a list apart, then every order of the list
sorts to the same one. Strings are compared by their code points, and a tuple as
the list of its components.

## Main definitions

* `sortBy`: The list sorted by a key.
* `sortWith`: The list sorted by a comparison.
* `codePoints`: A string as it is compared.
* `sortedSet`: The elements of a list, each once, in order.

## Theorems

* `sortBy_eq_of_perm`: Two orders of a list sort alike.
* `filter_sortBy`: The sort is stable.
* `sortBy_eq_of_filters`: A sort depends on the elements of each key, in their order.
* `pairwise_sortedSet`: A sorted set is in strict order.
* `sortedSet_eq_of_mem`: A sorted set depends on the elements only.
* `sortedSet_eq_singleton`: A sorted set of one element.
* `rel_of_key_lt`: What holds of earlier and later elements holds of lower and higher keys.
-/

namespace SortKeys

open List

variable {α κ : Type*}

section Sorting

variable [LinearOrder κ]

/-- Sort by a key, leaving elements of one key in their order. -/
def sortBy (key : α → κ) (l : List α) : List α :=
  l.insertionSort (fun a b => key a ≤ key b)

theorem perm_sortBy (key : α → κ) (l : List α) : (sortBy key l).Perm l :=
  perm_insertionSort _ l

variable {key : α → κ} {l l' : List α} {β : Type*}

@[simp]
theorem mem_sortBy {a : α} : a ∈ sortBy key l ↔ a ∈ l :=
  (perm_sortBy key l).mem_iff

theorem length_sortBy (key : α → κ) (l : List α) : (sortBy key l).length = l.length :=
  (perm_sortBy key l).length_eq

theorem pairwise_sortBy (key : α → κ) (l : List α) :
    (sortBy key l).Pairwise (fun a b => key a ≤ key b) := by
  have htotal : Std.Total (fun a b : α => key a ≤ key b) := ⟨fun a b => le_total (key a) (key b)⟩
  have htrans : IsTrans α (fun a b => key a ≤ key b) := ⟨fun _ _ _ => le_trans⟩
  exact pairwise_insertionSort _ l

/-- Two orders of a list sort alike, if the key tells its elements apart. -/
theorem sortBy_eq_of_perm (hp : l.Perm l') (hkey : ∀ a ∈ l, ∀ b ∈ l, key a = key b → a = b) :
    sortBy key l = sortBy key l' := by
  have hperm : (sortBy key l).Perm (sortBy key l') :=
    ((perm_sortBy key l).trans hp).trans (perm_sortBy key l').symm
  refine hperm.eq_of_pairwise (fun a b ha hb hab hba => ?_) (pairwise_sortBy key l)
    (pairwise_sortBy key l')
  exact hkey a (mem_sortBy.mp ha) b (hp.mem_iff.mpr (mem_sortBy.mp hb)) (le_antisymm hab hba)

/-- Elements of one key stay in their order. -/
theorem filter_sortBy (key : α → κ) (k : κ) (l : List α) :
    (sortBy key l).filter (fun a => key a = k) = l.filter (fun a => key a = k) := by
  have htotal : Std.Total (fun a b : α => key a ≤ key b) := ⟨fun a b => le_total (key a) (key b)⟩
  have htrans : IsTrans α (fun a b => key a ≤ key b) := ⟨fun _ _ _ => le_trans⟩
  have hsame : (l.filter (fun a => key a = k)).Pairwise (fun a b => key a ≤ key b) := by
    refine pairwise_of_forall_mem_list (fun a ha b hb => ?_)
    rw [of_decide_eq_true (mem_filter.mp ha).2, of_decide_eq_true (mem_filter.mp hb).2]
  have hsub : (l.filter (fun a => key a = k)).Sublist (sortBy key l) :=
    sublist_insertionSort hsame filter_sublist
  have hfilter := hsub.filter (fun a => decide (key a = k))
  rw [filter_filter] at hfilter
  simp only [Bool.and_self] at hfilter
  exact (hfilter.eq_of_length ((perm_sortBy key l).filter _).length_eq.symm).symm

/-- A list in the order of its keys is determined by the elements of each key. -/
theorem eq_of_filters (hl : l.Pairwise (fun a b => key a ≤ key b))
    (hl' : l'.Pairwise (fun a b => key a ≤ key b))
    (h : ∀ k, l.filter (fun a => key a = k) = l'.filter (fun a => key a = k)) : l = l' := by
  have hmem : ∀ a, a ∈ l ↔ a ∈ l' := by
    intro a
    have hiff : a ∈ l.filter (fun b => key b = key a) ↔ a ∈ l'.filter (fun b => key b = key a) := by
      rw [h]
    rw [mem_filter, mem_filter] at hiff
    simp only [decide_true, and_true] at hiff
    exact hiff
  induction l generalizing l' with
  | nil =>
    cases l' with
    | nil => rfl
    | cons b l' => exact absurd ((hmem b).mpr mem_cons_self) not_mem_nil
  | cons a l ih =>
    cases l' with
    | nil => exact absurd ((hmem a).mp mem_cons_self) not_mem_nil
    | cons b l' =>
      -- The two heads have the least key, and are the first of it.
      have hab : key a ≤ key b := by
        rcases mem_cons.mp ((hmem b).mpr mem_cons_self) with he | hb
        · rw [he]
        · exact rel_of_pairwise_cons hl hb
      have hba : key b ≤ key a := by
        rcases mem_cons.mp ((hmem a).mp mem_cons_self) with he | ha
        · rw [he]
        · exact rel_of_pairwise_cons hl' ha
      have hkey : key b = key a := le_antisymm hba hab
      have hhead := h (key a)
      simp only [filter_cons, hkey, decide_true, if_true] at hhead
      have he := (List.cons.inj hhead).1
      rw [← he] at h hl' ⊢
      have hrest : ∀ k, l.filter (fun c => key c = k) = l'.filter (fun c => key c = k) := by
        intro k
        have hk := h k
        simp only [filter_cons] at hk
        split at hk
        · exact (List.cons.inj hk).2
        · exact hk
      refine congrArg (a :: ·) (ih hl.of_cons hl'.of_cons hrest (fun c => ?_))
      have hiff : c ∈ l.filter (fun d => key d = key c) ↔
          c ∈ l'.filter (fun d => key d = key c) := by
        rw [hrest]
      rw [mem_filter, mem_filter] at hiff
      simp only [decide_true, and_true] at hiff
      exact hiff

/-- A sort depends on nothing but the elements of each key, in their order. A key may be tested
    for in any way. -/
theorem sortBy_eq_of_filters
    (h : ∀ (k : κ) (p : α → Bool), (∀ a, p a = true ↔ key a = k) → l.filter p = l'.filter p) :
    sortBy key l = sortBy key l' := by
  refine eq_of_filters (pairwise_sortBy key l) (pairwise_sortBy key l') (fun k => ?_)
  rw [filter_sortBy, filter_sortBy]
  exact h k _ (fun a => decide_eq_true_iff)

theorem sortBy_congr {key' : α → κ} (h : ∀ a ∈ l, key a = key' a) :
    sortBy key l = sortBy key' l := by
  have hmap := map_insertionSort (fun a b : α => key a ≤ key b)
    (fun a b : α => key' a ≤ key' b) id l (fun a ha b hb => by rw [h a ha, h b hb]; exact Iff.rfl)
  rwa [map_id, map_id] at hmap

/-- Sorting what a list is mapped to is mapping what it is sorted to. -/
theorem sortBy_map (key : β → κ) (f : α → β) (l : List α) :
    sortBy key (l.map f) = (sortBy (fun a => key (f a)) l).map f := by
  rw [sortBy, sortBy]
  exact (map_insertionSort _ _ f l fun _ _ _ _ => Iff.rfl).symm

/-- Two lists that are related item by item stay so when they are sorted by one key. -/
theorem forall₂_sortBy {R : α → β → Prop} {key' : β → κ} {m : List β}
    (hkey : ∀ a b, R a b → key a = key' b) (h : List.Forall₂ R l m) :
    List.Forall₂ R (sortBy key l) (sortBy key' m) := by
  have hpairs : ∃ z : List (α × β), z.map Prod.fst = l ∧ z.map Prod.snd = m ∧
      ∀ p ∈ z, R p.1 p.2 := by
    induction h with
    | nil => exact ⟨[], rfl, rfl, fun _ hp => absurd hp not_mem_nil⟩
    | @cons a b _ _ hab _ ih =>
      rcases ih with ⟨z, rfl, rfl, hz⟩
      refine ⟨(a, b) :: z, rfl, rfl, fun p hp => ?_⟩
      rcases mem_cons.mp hp with rfl | hp
      · exact hab
      · exact hz p hp
  rcases hpairs with ⟨z, rfl, rfl, hz⟩
  rw [sortBy_map, sortBy_map, sortBy_congr (fun p hp => hkey _ _ (hz p hp))]
  refine List.forall₂_map_left_iff.mpr (List.forall₂_map_right_iff.mpr ?_)
  exact List.forall₂_same.mpr (fun p hp => hz p (mem_sortBy.mp hp))

end Sorting

section Parts

variable {β : Type*}

variable {f : α → List β} {l : List α}

/-- What several parts are put together to does not depend on their order, if only one of them
    has anything. -/
theorem flatMap_eq_of_perm {l' : List α} (hp : l.Perm l')
    (h : l.Pairwise (fun a b => f a = [] ∨ f b = [])) : l.flatMap f = l'.flatMap f := by
  induction hp with
  | nil => rfl
  | cons a _ ih =>
    rw [flatMap_cons, flatMap_cons, ih h.of_cons]
  | swap a b l =>
    simp only [flatMap_cons]
    rcases rel_of_pairwise_cons h mem_cons_self with hb | ha
    · rw [hb, nil_append, nil_append]
    · rw [ha, nil_append, nil_append]
  | trans hp _ ih ih' =>
    exact (ih h).trans (ih' ((hp.pairwise_iff (fun hab => hab.symm)).mp h))

/-- Only the parts that have something matter. -/
theorem flatMap_filter_of_nil {p : α → Bool} (h : ∀ a ∈ l, p a = false → f a = []) :
    (l.filter p).flatMap f = l.flatMap f := by
  induction l with
  | nil => rfl
  | cons a l ih =>
    have hrest := ih (fun b hb => h b (mem_cons_of_mem a hb))
    by_cases ha : p a = true
    · rw [filter_cons_of_pos ha, flatMap_cons, flatMap_cons, hrest]
    · rw [filter_cons_of_neg ha, flatMap_cons, hrest,
        h a mem_cons_self (Bool.eq_false_iff.mpr ha), nil_append]

end Parts

section Comparing

/-- Sort by a comparison, leaving elements that compare equal in their order. -/
def sortWith (cmp : α → α → Ordering) (l : List α) : List α :=
  l.insertionSort (fun a b => (cmp a b).isLE = true)

theorem perm_sortWith (cmp : α → α → Ordering) (l : List α) : (sortWith cmp l).Perm l :=
  perm_insertionSort _ l

variable {l : List α} {a : α}

theorem mem_sortWith {cmp : α → α → Ordering} : a ∈ sortWith cmp l ↔ a ∈ l :=
  (perm_sortWith cmp l).mem_iff

theorem pairwise_sortWith (cmp : α → α → Ordering) [Std.TransCmp cmp] (l : List α) :
    (sortWith cmp l).Pairwise (fun a b => (cmp a b).isLE = true) := by
  have htotal : Std.Total (fun a b : α => (cmp a b).isLE = true) := by
    refine ⟨fun a b => ?_⟩
    rw [@Std.OrientedCmp.eq_swap α cmp _ a b]
    cases cmp b a with
    | lt => exact .inr rfl
    | eq => exact .inl rfl
    | gt => exact .inl rfl
  have htrans : IsTrans α (fun a b => (cmp a b).isLE = true) :=
    ⟨fun _ _ _ => Std.TransCmp.isLE_trans⟩
  exact pairwise_insertionSort _ l

/-- What holds of earlier and later elements of a list that is sorted by a key holds of elements
    with a lower and a higher key. -/
theorem rel_of_key_lt {κ : Type*} [LinearOrder κ] {key : α → κ} {R : α → α → Prop}
    (hsorted : l.Pairwise (fun a b => key a ≤ key b)) (h : l.Pairwise R) {b : α} (ha : a ∈ l)
    (hb : b ∈ l) (hlt : key a < key b) : R a b := by
  have hself : ∀ c ∈ l, key c < key c → R c c := fun c _ hc => absurd hc (lt_irrefl _)
  have hlater : l.Pairwise (fun a b => key a < key b → R a b) := by
    refine h.imp ?_
    exact fun hab _ => hab
  have hearlier : l.Pairwise (flip (fun a b => key a < key b → R a b)) := by
    refine hsorted.imp ?_
    exact fun hab hba => absurd hba (not_lt_of_ge hab)
  exact List.Pairwise.forall_of_forall_of_flip hself hlater hearlier ha hb hlt

end Comparing

/-- A string as Python compares it, by code points. -/
def codePoints (s : List Char) : List Nat :=
  s.map Char.toNat

theorem codePoints_injective : Function.Injective codePoints := by
  refine map_injective_iff.mpr (fun c d h => ?_)
  exact Char.toNat_inj.mp h

/-- The strings of a list, each once, in order. -/
def sortedSet (l : List (List Char)) : List (List Char) :=
  sortBy codePoints l.dedup

variable {l : List (List Char)}

@[simp]
theorem mem_sortedSet {s : List Char} : s ∈ sortedSet l ↔ s ∈ l := by
  rw [sortedSet, mem_sortBy, mem_dedup]

theorem nodup_sortedSet (l : List (List Char)) : (sortedSet l).Nodup :=
  (perm_sortBy _ _).nodup_iff.mpr (nodup_dedup l)

theorem pairwise_sortedSet (l : List (List Char)) :
    (sortedSet l).Pairwise (fun s t => codePoints s < codePoints t) := by
  refine ((pairwise_sortBy codePoints l.dedup).and (nodup_sortedSet l)).imp (fun h => ?_)
  exact lt_of_le_of_ne h.1 (fun e => h.2 (codePoints_injective e))

/-- A sorted set depends on nothing but the elements. -/
theorem sortedSet_eq_of_mem {l' : List (List Char)} (h : ∀ s, s ∈ l ↔ s ∈ l') :
    sortedSet l = sortedSet l' := by
  have hperm : l.dedup.Perm l'.dedup := by
    rw [perm_ext_iff_of_nodup (nodup_dedup l) (nodup_dedup l')]
    intro s
    rw [mem_dedup, mem_dedup, h]
  exact sortBy_eq_of_perm hperm (fun a _ b _ hab => codePoints_injective hab)

theorem sortedSet_eq_singleton {k : List Char} : sortedSet l = [k] ↔ k ∈ l ∧ ∀ s ∈ l, s = k := by
  constructor
  · intro h
    refine ⟨mem_sortedSet.mp (h ▸ mem_singleton_self k), fun s hs => ?_⟩
    exact mem_singleton.mp (h ▸ mem_sortedSet.mpr hs)
  · rintro ⟨hk, hall⟩
    have hperm : (sortedSet l).Perm [k] := by
      rw [perm_ext_iff_of_nodup (nodup_sortedSet l) (nodup_singleton k)]
      intro s
      rw [mem_sortedSet, mem_singleton]
      exact ⟨hall s, fun h => h ▸ hk⟩
    exact perm_singleton.mp hperm

end SortKeys
