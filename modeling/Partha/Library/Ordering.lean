import Mathlib.Data.List.Sort
import Mathlib.Data.List.Lex
import Mathlib.Data.Prod.Lex

/-!
# Canonical Orderings

A list that stands for a set: the duplicates are dropped and the rest is sorted.

Elements are told apart by a `code`, and the sort compares a rank first and
breaks ties by the code. If the code is injective, then the result depends on
the set of elements that went in and on nothing else, neither their order nor
how often they occurred, whatever the rank is. `ordered_eq_iff` says so in both
directions, so a canonical ordering is as good as the set.

## Main definitions

* `distinct`: The elements whose code was not seen before.
* `ordered`: The same, sorted by rank and code.

## Theorems

* `mem_distinct_iff`: Which elements are the first of their code.
* `distinct_concat`: The distinct elements of a list that grows at the end.
* `mem_ordered`: An ordering has the elements of the list.
* `ordered_eq_iff`: Two orderings agree exactly when the sets do.
* `ordered_ordered`: Ordering twice is ordering once.
-/

namespace Ordering

open List

variable {α ρ κ : Type*}

section Distinct

variable [DecidableEq κ]

/-- The elements whose code is not in `seen`, each the first of its code. -/
def distinct (code : α → κ) : List κ → List α → List α
  | _, [] => []
  | seen, a :: l =>
    if code a ∈ seen then distinct code seen l
    else a :: distinct code (code a :: seen) l

theorem distinct_nil (code : α → κ) (seen : List κ) : distinct code seen [] = [] :=
  rfl

variable {code : α → κ} {seen : List κ} {a : α} {l : List α}

theorem distinct_seen (h : code a ∈ seen) (l : List α) :
    distinct code seen (a :: l) = distinct code seen l :=
  if_pos h

theorem distinct_new (h : code a ∉ seen) (l : List α) :
    distinct code seen (a :: l) = a :: distinct code (code a :: seen) l :=
  if_neg h

theorem mem_distinct (hcode : Function.Injective code) :
    a ∈ distinct code seen l ↔ a ∈ l ∧ code a ∉ seen := by
  induction l generalizing seen with
  | nil => simp only [distinct_nil, not_mem_nil, false_and]
  | cons b l ih =>
    by_cases hb : code b ∈ seen
    · rw [distinct_seen hb, ih, mem_cons]
      constructor
      · rintro ⟨ha, hs⟩
        exact ⟨.inr ha, hs⟩
      · rintro ⟨rfl | ha, hs⟩
        · exact absurd hb hs
        · exact ⟨ha, hs⟩
    · rw [distinct_new hb, mem_cons, ih, mem_cons, mem_cons, not_or]
      constructor
      · rintro (rfl | ⟨ha, _, hs⟩)
        · exact ⟨.inl rfl, hb⟩
        · exact ⟨.inr ha, hs⟩
      · rintro ⟨ha, hs⟩
        by_cases he : a = b
        · exact .inl he
        · rcases ha with ha | ha
          · exact absurd ha he
          · exact .inr ⟨ha, fun h => he (hcode h), hs⟩

theorem nodup_distinct (hcode : Function.Injective code) (seen : List κ) (l : List α) :
    (distinct code seen l).Nodup := by
  induction l generalizing seen with
  | nil => exact nodup_nil
  | cons b l ih =>
    by_cases hb : code b ∈ seen
    · rw [distinct_seen hb]
      exact ih seen
    · rw [distinct_new hb, nodup_cons]
      exact ⟨fun h => ((mem_distinct hcode).mp h).2 mem_cons_self, ih _⟩

theorem distinct_subset (h : a ∈ distinct code seen l) : a ∈ l ∧ code a ∉ seen := by
  induction l generalizing seen with
  | nil => cases h
  | cons b l ih =>
    by_cases hb : code b ∈ seen
    · rw [distinct_seen hb] at h
      exact ⟨mem_cons_of_mem b (ih h).1, (ih h).2⟩
    · rw [distinct_new hb] at h
      rcases mem_cons.mp h with rfl | h
      · exact ⟨mem_cons_self, hb⟩
      · exact ⟨mem_cons_of_mem b (ih h).1,
          fun hs => (ih h).2 (mem_cons_of_mem _ hs)⟩

/-- Every code that was not seen before has an element that stands for it. -/
theorem exists_distinct (ha : a ∈ l) (hs : code a ∉ seen) :
    ∃ b ∈ distinct code seen l, code b = code a := by
  induction l generalizing seen with
  | nil => cases ha
  | cons b l ih =>
    by_cases hb : code b ∈ seen
    · rw [distinct_seen hb]
      rcases mem_cons.mp ha with rfl | ha
      · exact absurd hb hs
      · exact ih ha hs
    · rw [distinct_new hb]
      by_cases hab : code b = code a
      · exact ⟨b, mem_cons_self, hab⟩
      · rcases mem_cons.mp ha with rfl | ha
        · exact absurd rfl hab
        · have hs' : code a ∉ code b :: seen := by
            rw [mem_cons, not_or]
            exact ⟨fun e => hab e.symm, hs⟩
          rcases ih ha hs' with ⟨c, hc, he⟩
          exact ⟨c, mem_cons_of_mem b hc, he⟩

theorem nodup_distinct_codes (code : α → κ) (seen : List κ) (l : List α) :
    ((distinct code seen l).map code).Nodup := by
  induction l generalizing seen with
  | nil => exact nodup_nil
  | cons b l ih =>
    by_cases hb : code b ∈ seen
    · rw [distinct_seen hb]
      exact ih seen
    · rw [distinct_new hb, map_cons, nodup_cons]
      refine ⟨fun h => ?_, ih _⟩
      rcases mem_map.mp h with ⟨c, hc, he⟩
      exact (distinct_subset hc).2 (by rw [he]; exact mem_cons_self)

/-- The first of its code is the element before which the code does not occur. -/
theorem mem_distinct_iff :
    a ∈ distinct code seen l ↔
      code a ∉ seen ∧ ∃ before after, l = before ++ a :: after ∧ ∀ b ∈ before, code b ≠ code a := by
  induction l generalizing seen with
  | nil =>
    simp only [distinct_nil, not_mem_nil, false_iff, not_and, not_exists]
    rintro _ before after h _
    exact absurd h.symm (append_ne_nil_of_right_ne_nil _ (cons_ne_nil _ _))
  | cons c l ih =>
    constructor
    · intro h
      -- the first element is dropped or kept, and later elements of its code are dropped
      by_cases hc : code c ∈ seen
      · rw [distinct_seen hc] at h
        rcases ih.mp h with ⟨ha, before, after, rfl, hb⟩
        refine ⟨ha, c :: before, after, rfl, fun b hmem => ?_⟩
        rcases mem_cons.mp hmem with rfl | hmem
        · exact fun e => ha (by rw [← e]; exact hc)
        · exact hb b hmem
      · rw [distinct_new hc] at h
        rcases mem_cons.mp h with rfl | h
        · exact ⟨hc, [], l, rfl, fun b hb => absurd hb not_mem_nil⟩
        · rcases ih.mp h with ⟨ha, before, after, rfl, hb⟩
          rw [mem_cons, not_or] at ha
          refine ⟨ha.2, c :: before, after, rfl, fun b hmem => ?_⟩
          rcases mem_cons.mp hmem with rfl | hmem
          · exact fun e => ha.1 e.symm
          · exact hb b hmem
    · rintro ⟨ha, before, after, hl, hb⟩
      cases before with
      | nil =>
        rcases List.cons.inj hl with ⟨rfl, rfl⟩
        rw [distinct_new ha]
        exact mem_cons_self
      | cons d before =>
        rcases List.cons.inj hl with ⟨rfl, rfl⟩
        have hne := hb c mem_cons_self
        have hrest : ∃ b' a', before ++ a :: after = b' ++ a :: a' ∧ ∀ b ∈ b', code b ≠ code a :=
          ⟨before, after, rfl, fun b hmem => hb b (mem_cons_of_mem c hmem)⟩
        by_cases hc : code c ∈ seen
        · rw [distinct_seen hc]
          exact ih.mpr ⟨ha, hrest⟩
        · rw [distinct_new hc]
          refine mem_cons_of_mem c (ih.mpr ⟨?_, hrest⟩)
          rw [mem_cons, not_or]
          exact ⟨fun e => hne e.symm, ha⟩

/-- One more element at the end is dropped if its code occurred before. -/
theorem distinct_concat (code : α → κ) (seen : List κ) (l : List α) (a : α) :
    distinct code seen (l ++ [a]) = distinct code seen l ++
      if code a ∈ seen ∨ ∃ b ∈ l, code b = code a then [] else [a] := by
  induction l generalizing seen with
  | nil =>
    by_cases ha : code a ∈ seen
    · rw [nil_append, distinct_seen ha, if_pos (.inl ha), distinct_nil, append_nil]
    · rw [nil_append, distinct_new ha, distinct_nil, distinct_nil, nil_append, if_neg]
      rintro (h | ⟨b, hb, -⟩)
      · exact ha h
      · cases hb
  | cons c l ih =>
    rw [cons_append]
    by_cases hc : code c ∈ seen
    · rw [distinct_seen hc, distinct_seen hc, ih]
      congr 1
      refine if_congr ?_ rfl rfl
      simp only [exists_mem_cons_iff]
      constructor
      · exact fun h => h.imp_right .inr
      · rintro (h | h | h)
        · exact .inl h
        · exact .inl (by rw [← h]; exact hc)
        · exact .inr h
    · rw [distinct_new hc, distinct_new hc, ih, cons_append]
      congr 2
      refine if_congr ?_ rfl rfl
      rw [exists_mem_cons_iff, mem_cons]
      constructor
      · rintro ((h | h) | h)
        · exact .inr (.inl h.symm)
        · exact .inl h
        · exact .inr (.inr h)
      · rintro (h | h | h)
        · exact .inl (.inr h)
        · exact .inl (.inl h.symm)
        · exact .inr h

/-- Corresponding lists have corresponding distinct elements. -/
theorem distinct_forall₂ {β : Type*} {code' : β → κ} {R : α → β → Prop}
    (hcode : ∀ a b, R a b → code a = code' b) {m : List β} (h : List.Forall₂ R l m) :
    List.Forall₂ R (distinct code seen l) (distinct code' seen m) := by
  induction h generalizing seen with
  | nil => exact List.Forall₂.nil
  | @cons a b l m hab _ ih =>
    have hsame := hcode a b hab
    by_cases hb : code' b ∈ seen
    · rw [distinct_seen hb, distinct_seen (by rwa [hsame])]
      exact ih
    · rw [distinct_new hb, distinct_new (by rwa [hsame]), hsame]
      exact List.Forall₂.cons hab ih

end Distinct

section Ordered

variable [LinearOrder ρ] [LinearOrder κ] {rank : α → ρ} {code : α → κ}

/-- The order of the sort: by rank, and by code among equal ranks. -/
def precedes (rank : α → ρ) (code : α → κ) (a b : α) : Prop :=
  toLex (rank a, code a) ≤ toLex (rank b, code b)

instance decidablePrecedes (rank : α → ρ) (code : α → κ) : DecidableRel (precedes rank code) :=
  fun a b => inferInstanceAs (Decidable (toLex (rank a, code a) ≤ toLex (rank b, code b)))

instance totalPrecedes (rank : α → ρ) (code : α → κ) : Std.Total (precedes rank code) :=
  ⟨fun a b => le_total (toLex (rank a, code a)) (toLex (rank b, code b))⟩

instance transPrecedes (rank : α → ρ) (code : α → κ) : IsTrans α (precedes rank code) :=
  ⟨fun _ _ _ h h' => le_trans h h'⟩

/-- The distinct elements, sorted by rank and code. -/
def ordered (rank : α → ρ) (code : α → κ) (l : List α) : List α :=
  (distinct code [] l).insertionSort (precedes rank code)

variable {l : List α}

theorem mem_ordered (hcode : Function.Injective code) {a : α} :
    a ∈ ordered rank code l ↔ a ∈ l := by
  rw [ordered, mem_insertionSort, mem_distinct hcode]
  exact ⟨fun h => h.1, fun h => ⟨h, not_mem_nil⟩⟩

theorem ordered_nodup (rank : α → ρ) (hcode : Function.Injective code) (l : List α) :
    (ordered rank code l).Nodup :=
  (perm_insertionSort (precedes rank code) (distinct code [] l)).nodup_iff.mpr
    (nodup_distinct hcode [] l)

/-- Two canonical orderings agree exactly when the lists have the same elements. -/
theorem ordered_eq_iff (hcode : Function.Injective code) {l' : List α} :
    ordered rank code l = ordered rank code l' ↔ ∀ a, a ∈ l ↔ a ∈ l' := by
  constructor
  · intro h a
    have ha : a ∈ ordered rank code l ↔ a ∈ ordered rank code l' := by rw [h]
    rw [mem_ordered hcode, mem_ordered hcode] at ha
    exact ha
  · intro h
    have hperm : (ordered rank code l).Perm (ordered rank code l') := by
      rw [perm_ext_iff_of_nodup (ordered_nodup rank hcode l) (ordered_nodup rank hcode l')]
      intro a
      rw [mem_ordered hcode, mem_ordered hcode]
      exact h a
    -- The order is antisymmetric because the code itself breaks the ties.
    refine hperm.eq_of_pairwise (fun a b _ _ hab hba => ?_) (pairwise_insertionSort _ _)
      (pairwise_insertionSort _ _)
    have hsame := le_antisymm hab hba
    rw [toLex_inj, Prod.mk.injEq] at hsame
    exact hcode hsame.2

theorem ordered_ordered (hcode : Function.Injective code) (l : List α) :
    ordered rank code (ordered rank code l) = ordered rank code l :=
  (ordered_eq_iff hcode).mpr (fun _ => mem_ordered hcode)

end Ordered

end Ordering
