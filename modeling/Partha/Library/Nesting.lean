import Mathlib.Data.List.Nodup
import Mathlib.Logic.Relation

/-!
# Nesting

Trees of labels, listed in the order of a walk, and the numbering of what occurs repeatedly.

A label has a place in a tree: the labels around it and an address, its position among its
siblings before those of the labels around it. Addresses tell places apart when labels do
not. A place at the top has an address of one position, and any other has the address of the
place around it behind its own position.

A numbering goes through a list and counts for each key how often it was there. A key with
its number occurs once.

## Main definitions

* `Tree`: A label with the trees in it.
* `forest`: The places of some trees, a label before what is in it.
* `number`: Elements with the number of their occurrence.
* `IsForest`: A relation that hangs its vertices on a root.

## Theorems

* `forest_address`: An address has one place.
* `forest_parent`: Every place but those at the top has one around it.
* `forest_around`: The labels around a place are those of the place around it.
* `mem_number`: The number of an occurrence.
* `nodup_number`: A key with its number occurs once.
-/

namespace Nesting

open List

section Trees

/-- A label with the trees in it. -/
inductive Tree (α : Type*) where
  | node (label : α) (children : List (Tree α))

/-- A label where it stands, with the labels around it from the outermost one on. -/
structure Place (α : Type*) where
  address : List Nat
  around : List α
  label : α

variable {α : Type*}

mutual

/-- The places of a tree. -/
def places (around : List α) (address : List Nat) : Tree α → List (Place α)
  | .node label children =>
    { address := address, around := around, label := label } ::
      placesAll (around ++ [label]) address 0 children

/-- The places of some trees, of which the first has the position `i`. -/
def placesAll (around : List α) (address : List Nat) (i : Nat) : List (Tree α) → List (Place α)
  | [] => []
  | t :: ts => places around (i :: address) t ++ placesAll around address (i + 1) ts

end

/-- The places of some trees at the top. -/
def forest (ts : List (Tree α)) : List (Place α) :=
  placesAll [] [] 0 ts

theorem placesAll_append (around : List α) (address : List Nat) (i : Nat)
    (ts ts' : List (Tree α)) :
    placesAll around address i (ts ++ ts') =
      placesAll around address i ts ++ placesAll around address (i + ts.length) ts' := by
  induction ts generalizing i with
  | nil => rfl
  | cons t ts ih =>
    have hnext : i + 1 + ts.length = i + (t :: ts).length := by
      rw [length_cons]
      omega
    rw [cons_append, placesAll, ih, placesAll, append_assoc, hnext]

mutual

/-- The places of a tree are under its address. -/
theorem address_places {around : List α} {address : List Nat} :
    ∀ {t : Tree α} {p : Place α}, p ∈ places around address t → address <:+ p.address
  | .node label children, p, hp => by
    rcases mem_cons.mp hp with rfl | hp
    · exact suffix_refl address
    · rcases address_placesAll hp with ⟨j, -, hj⟩
      exact (suffix_cons j address).trans hj

theorem address_placesAll {around : List α} {address : List Nat} {i : Nat} :
    ∀ {ts : List (Tree α)} {p : Place α}, p ∈ placesAll around address i ts →
      ∃ j, i ≤ j ∧ j :: address <:+ p.address
  | [], p, hp => absurd hp not_mem_nil
  | t :: ts, p, hp => by
    rcases mem_append.mp hp with hp | hp
    · exact ⟨i, Nat.le_refl i, address_places hp⟩
    · rcases address_placesAll hp with ⟨j, hij, hj⟩
      exact ⟨j, Nat.le_of_succ_le hij, hj⟩

end

/-- Two positions at one address that an address is under are the same. -/
theorem position_unique {j k : Nat} {address l : List Nat} (hj : j :: address <:+ l)
    (hk : k :: address <:+ l) : j = k := by
  have heq := (suffix_of_suffix_length_le hj hk (Nat.le_refl _)).eq_of_length rfl
  exact (List.cons.inj heq).1

mutual

/-- No two places have an address in common. -/
theorem nodup_places (around : List α) (address : List Nat) :
    ∀ t : Tree α, ((places around address t).map Place.address).Nodup
  | .node label children => by
    rw [places, map_cons, nodup_cons]
    refine ⟨fun hmem => ?_, nodup_placesAll _ address 0 children⟩
    rcases mem_map.mp hmem with ⟨p, hp, haddress⟩
    rcases address_placesAll hp with ⟨j, -, hj⟩
    have hlength := hj.length_le
    rw [haddress, length_cons] at hlength
    exact absurd hlength (Nat.not_succ_le_self _)

theorem nodup_placesAll (around : List α) (address : List Nat) (i : Nat) :
    ∀ ts : List (Tree α), ((placesAll around address i ts).map Place.address).Nodup
  | [] => nodup_nil
  | t :: ts => by
    rw [placesAll, map_append, nodup_append]
    refine ⟨nodup_places _ _ t, nodup_placesAll _ _ _ ts, fun a ha b hb hab => ?_⟩
    rcases mem_map.mp ha with ⟨p, hp, rfl⟩
    rcases mem_map.mp hb with ⟨q, hq, rfl⟩
    rcases address_placesAll hq with ⟨j, hij, hj⟩
    have hi := address_places hp
    rw [hab] at hi
    have hsame := position_unique hi hj
    omega

end

mutual

/-- What is around a place of a tree. -/
theorem around_places {around : List α} {address : List Nat} :
    ∀ {t : Tree α} {p : Place α}, p ∈ places around address t →
      (p.address = address ∧ p.around = around) ∨
        ∃ q ∈ places around address t, p.address.tail = q.address ∧
          p.around = q.around ++ [q.label]
  | .node label children, p, hp => by
    rcases mem_cons.mp hp with rfl | hp
    · exact .inl ⟨rfl, rfl⟩
    · refine .inr ?_
      rcases around_placesAll hp with ⟨j, haddress, haround⟩ | ⟨q, hq, haddress, haround⟩
      · refine ⟨_, mem_cons_self, ?_, haround⟩
        rw [haddress]
        rfl
      · exact ⟨q, mem_cons_of_mem _ hq, haddress, haround⟩

theorem around_placesAll {around : List α} {address : List Nat} {i : Nat} :
    ∀ {ts : List (Tree α)} {p : Place α}, p ∈ placesAll around address i ts →
      (∃ j, p.address = j :: address ∧ p.around = around) ∨
        ∃ q ∈ placesAll around address i ts, p.address.tail = q.address ∧
          p.around = q.around ++ [q.label]
  | [], p, hp => absurd hp not_mem_nil
  | t :: ts, p, hp => by
    rcases mem_append.mp hp with hp | hp
    · rcases around_places hp with ⟨haddress, haround⟩ | ⟨q, hq, hparent⟩
      · exact .inl ⟨i, haddress, haround⟩
      · exact .inr ⟨q, mem_append_left _ hq, hparent⟩
    · rcases around_placesAll hp with htop | ⟨q, hq, hparent⟩
      · exact .inl htop
      · exact .inr ⟨q, mem_append_right _ hq, hparent⟩

end

variable {ts : List (Tree α)} {p q : Place α}

/-- An address has one place. -/
theorem forest_address (hp : p ∈ forest ts) (hq : q ∈ forest ts)
    (h : p.address = q.address) : p = q :=
  inj_on_of_nodup_map (nodup_placesAll [] [] 0 ts) hp hq h

theorem forest_address_ne_nil (hp : p ∈ forest ts) : p.address ≠ [] := by
  rcases address_placesAll hp with ⟨j, -, hj⟩
  exact ne_nil_of_length_pos
    (Nat.lt_of_lt_of_le (Nat.zero_lt_succ _) hj.length_le)

/-- Some place is at the top, if there are places. -/
theorem exists_top (h : forest ts ≠ []) : ∃ p ∈ forest ts, p.address.tail = [] := by
  cases ts with
  | nil => exact absurd rfl h
  | cons t ts =>
    cases t with
    | node label children => exact ⟨_, mem_cons_self, rfl⟩

/-- There is nothing around a place at the top. -/
theorem forest_top (hp : p ∈ forest ts) (h : p.address.tail = []) : p.around = [] := by
  rcases around_placesAll hp with ⟨j, -, haround⟩ | ⟨r, hr, haddress, -⟩
  · exact haround
  · exact absurd (haddress.symm.trans h) (forest_address_ne_nil hr)

/-- Every other place has one around it. -/
theorem forest_parent (hp : p ∈ forest ts) (h : p.address.tail ≠ []) :
    ∃ q ∈ forest ts, p.address.tail = q.address := by
  rcases around_placesAll hp with ⟨j, haddress, -⟩ | ⟨r, hr, haddress, -⟩
  · rw [haddress] at h
    exact absurd rfl h
  · exact ⟨r, hr, haddress⟩

/-- The labels around a place are those around the place around it, and its own. -/
theorem forest_around (hp : p ∈ forest ts) (hq : q ∈ forest ts)
    (h : p.address.tail = q.address) : p.around = q.around ++ [q.label] := by
  rcases around_placesAll hp with ⟨j, haddress, -⟩ | ⟨r, hr, haddress, haround⟩
  · rw [haddress] at h
    exact absurd h.symm (forest_address_ne_nil hq)
  · rw [← forest_address hr hq (haddress.symm.trans h)]
    exact haround

end Trees

section Numbering

variable {α β : Type*} [BEq β]

/-- Elements with the number of the occurrence of their key, after those that were `seen`. -/
def number (key : α → β) (seen : List β) : List α → List (α × Nat)
  | [] => []
  | a :: as => (a, seen.count (key a) + 1) :: number key (key a :: seen) as

variable {key : α → β}

theorem map_fst_number (seen : List β) (as : List α) :
    (number key seen as).map Prod.fst = as := by
  induction as generalizing seen with
  | nil => rfl
  | cons a as ih => rw [number, map_cons, ih]

variable {seen : List β} {as : List α} {a : α}

/-- The number of an occurrence is one more than that of the earlier ones. -/
theorem mem_number {n : Nat} :
    (a, n) ∈ number key seen as ↔ ∃ earlier later, as = earlier ++ a :: later ∧
      n = seen.count (key a) + (earlier.map key).count (key a) + 1 := by
  induction as generalizing seen with
  | nil =>
    refine iff_of_false not_mem_nil (fun h => ?_)
    rcases h with ⟨earlier, later, h, -⟩
    exact absurd h.symm (append_ne_nil_of_right_ne_nil _ (cons_ne_nil _ _))
  | cons b as ih =>
    rw [number, mem_cons, ih]
    constructor
    · rintro (h | ⟨earlier, later, rfl, hn⟩)
      · rw [(Prod.mk.inj h).1, (Prod.mk.inj h).2]
        exact ⟨[], as, rfl, rfl⟩
      · refine ⟨b :: earlier, later, rfl, ?_⟩
        rw [hn, map_cons, count_cons, count_cons]
        omega
    · rintro ⟨earlier, later, h, hn⟩
      cases earlier with
      | nil =>
        rw [(List.cons.inj h).1, hn]
        exact .inl rfl
      | cons c earlier =>
        rcases List.cons.inj h with ⟨rfl, hrest⟩
        refine .inr ⟨earlier, later, hrest, ?_⟩
        rw [hn, map_cons, count_cons, count_cons]
        omega

variable [LawfulBEq β]

/-- The first occurrence has the number one. -/
theorem exists_number_one (ha : a ∈ as) (hseen : key a ∉ seen) :
    ∃ b, (b, 1) ∈ number key seen as ∧ key b = key a := by
  induction as generalizing seen with
  | nil => cases ha
  | cons c as ih =>
    rw [number]
    by_cases hkey : key c = key a
    · refine ⟨c, ?_, hkey⟩
      rw [count_eq_zero.mpr (by rw [hkey]; exact hseen)]
      exact mem_cons_self
    · have hmem : a ∈ as := by
        rcases mem_cons.mp ha with rfl | ha
        · exact absurd rfl hkey
        · exact ha
      have hunseen : key a ∉ key c :: seen := fun h => by
        rcases mem_cons.mp h with h | h
        · exact hkey h.symm
        · exact hseen h
      rcases ih hmem hunseen with ⟨b, hb, hsame⟩
      exact ⟨b, mem_cons_of_mem _ hb, hsame⟩

/-- A key with its number occurs once. -/
theorem nodup_number (seen : List β) (as : List α) :
    ((number key seen as).map (fun q => (key q.1, q.2))).Nodup := by
  have hlt : ∀ (seen : List β) (as : List α), ∀ q ∈ number key seen as,
      seen.count (key q.1) < q.2 := by
    intro seen as q hq
    rcases mem_number.mp (show (q.1, q.2) ∈ number key seen as from hq) with ⟨_, _, -, hn⟩
    omega
  induction as generalizing seen with
  | nil => exact nodup_nil
  | cons a as ih =>
    rw [number, map_cons, nodup_cons]
    refine ⟨fun hmem => ?_, ih _⟩
    rcases mem_map.mp hmem with ⟨q, hq, heq⟩
    rcases Prod.mk.inj heq with ⟨hkey, hnumber⟩
    have h := hlt _ _ q hq
    rw [hkey, hnumber, count_cons_self] at h
    exact absurd h (Nat.lt_irrefl _)

end Numbering

section Forests

/-- A relation that hangs its vertices on a root: each has one parent, and hangs on the root by
    a chain of parents. -/
structure IsForest {κ : Type*} (R : κ → κ → Prop) (root : κ) (vertices : List κ) : Prop where
  parent : ∀ c ∈ vertices, ∃! a, R a c
  reached : ∀ c ∈ vertices, Relation.TransGen R root c
  root : ∀ a, ¬ R a root

end Forests

end Nesting
