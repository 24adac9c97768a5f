import Mathlib.Data.List.Basic
import Mathlib.Data.List.Count
import Mathlib.Data.List.Nodup

/-!
# Guarded Updates of Row Lists

A database table as the list of its committed rows, with the one write every
compare-and-swap is built from: change the rows a predicate selects and report
how many there were.

`UPDATE ... WHERE` reads and writes in one statement, so a caller that must
know whether it won asks for the number of rows the guard matched rather than
reading first. `rowcount_eq_zero` and `updateWhere_of_rowcount_zero` are the
two halves of that reasoning: a count of zero says the guard failed on every
row, and a statement whose guard failed on every row left the table alone.

Rows are identified by a key. Nothing here fixes what the key is; the lemmas
that need one take it as a function together with the fact that an update does
not change it, which is what keeps a table's rows distinct across any sequence
of guarded updates.

## Main definitions

* `updateWhere`: Apply a change to the rows a predicate selects.
* `rowcount`: The number of rows a predicate selects.

## Theorems

* `mem_updateWhere`: Membership after an update, by cases on the guard.
* `mem_updateWhere_of_mem`, `updated_mem`: Where a row of the table went.
* `map_updateWhere`: A field no update changes is the same before and after.
* `rowcount_eq_zero`: A count of zero means the guard selects no row.
* `eq_of_key_eq`: Rows of one key are one row.
* `eq_of_column_eq`: The same for a nullable column with a unique index.
* `find?_perm`: Looking up a key does not depend on the order of the rows.
* `lookup_map_reverse`: Nor does a dictionary that was filled from them.
* `filter_sublist_filter`: A weaker predicate keeps at least as many rows.
* `flatMap_filter_perm`: Reading the rows kind by kind.
* `updateWhere_same`: Writing what is there writes nothing.
-/

namespace Rows

open List

variable {ρ κ : Type*}

/-- Apply `f` to the rows that `p` selects. -/
def updateWhere (p : ρ → Bool) (f : ρ → ρ) (rows : List ρ) : List ρ :=
  rows.map (fun r => if p r then f r else r)

/-- The number of rows that `p` selects. -/
def rowcount (p : ρ → Bool) (rows : List ρ) : Nat :=
  rows.countP p

variable {p : ρ → Bool} {f : ρ → ρ} {rows : List ρ} {r' r : ρ} {key : ρ → κ} {k : κ} {ν : Type*}
  {val : ρ → ν}

theorem mem_updateWhere :
    r' ∈ updateWhere p f rows ↔
      (r' ∈ rows ∧ p r' = false) ∨ ∃ r ∈ rows, p r = true ∧ r' = f r := by
  simp only [updateWhere, mem_map]
  constructor
  · rintro ⟨r, hr, rfl⟩
    by_cases hp : p r
    · rw [if_pos hp]
      exact .inr ⟨r, hr, hp, rfl⟩
    · rw [if_neg hp]
      exact .inl ⟨hr, by simpa using hp⟩
  · rintro (⟨hr, hp⟩ | ⟨r, hr, hp, rfl⟩)
    · exact ⟨r', hr, by rw [if_neg (by simp [hp])]⟩
    · exact ⟨r, hr, if_pos hp⟩

theorem mem_updateWhere_of_mem (hr : r ∈ rows) : (if p r then f r else r) ∈ updateWhere p f rows :=
  mem_map.mpr ⟨r, hr, rfl⟩

theorem updated_mem (hr : r ∈ rows) (hp : p r = true) : f r ∈ updateWhere p f rows :=
  mem_updateWhere.mpr (.inr ⟨r, hr, hp, rfl⟩)

theorem map_updateWhere (hkey : ∀ r, p r = true → key (f r) = key r) (rows : List ρ) :
    (updateWhere p f rows).map key = rows.map key := by
  simp only [updateWhere, map_map]
  refine map_congr_left (fun r _ => ?_)
  by_cases hp : p r
  · simp [if_pos hp, hkey r hp]
  · simp [if_neg hp]

theorem rowcount_eq_zero : rowcount p rows = 0 ↔ ∀ r ∈ rows, p r = false := by
  simp [rowcount]

theorem rowcount_ne_zero : rowcount p rows ≠ 0 ↔ ∃ r ∈ rows, p r = true := by
  simp [rowcount_eq_zero, not_forall]

theorem eq_of_key_eq (hn : (rows.map key).Nodup) (hr : r ∈ rows) (hr' : r' ∈ rows)
    (h : key r = key r') : r = r' :=
  inj_on_of_nodup_map hn hr hr' h

/-- A unique index on a nullable column tells the rows with a value apart. -/
theorem eq_of_column_eq {column : ρ → Option κ} (hn : (rows.filterMap column).Nodup) (hr : r ∈ rows)
    (hr' : r' ∈ rows) (h : column r = some k) (h' : column r' = some k) : r = r' := by
  induction rows with
  | nil => cases hr
  | cons x rows ih =>
    -- A row at the head keeps its value out of the rest.
    have hhead : ∀ y ∈ rows, column x = some k → column y = some k → False := by
      intro y hy hx hk
      rw [filterMap_cons_some hx, nodup_cons] at hn
      exact hn.1 (mem_filterMap.mpr ⟨y, hy, hk⟩)
    have hrest : (rows.filterMap column).Nodup := by
      cases hx : column x with
      | none => rwa [filterMap_cons_none hx] at hn
      | some k' =>
        rw [filterMap_cons_some hx] at hn
        exact (nodup_cons.mp hn).2
    rcases mem_cons.mp hr with e | hrows
    · rcases mem_cons.mp hr' with e' | hrows'
      · rw [e, e']
      · exact absurd h' (fun h' => hhead r' hrows' (e ▸ h) h')
    · rcases mem_cons.mp hr' with e' | hrows'
      · exact absurd h (fun h => hhead r hrows (e' ▸ h') h)
      · exact ih hrest hrows hrows'

/-- A query that at most one row answers finds that row. -/
theorem find?_unique (h : ∀ r ∈ rows, ∀ r' ∈ rows, p r = true → p r' = true → r = r') :
    rows.find? p = some r ↔ r ∈ rows ∧ p r = true := by
  constructor
  · exact fun hfind => ⟨mem_of_find?_eq_some hfind, List.find?_some hfind⟩
  · rintro ⟨hr, hp⟩
    cases hfind : rows.find? p with
    | none => exact absurd hp (List.find?_eq_none.mp hfind r hr)
    | some r' =>
      rw [h r' (mem_of_find?_eq_some hfind) r hr (List.find?_some hfind) hp]

theorem find?_eq_some [DecidableEq κ] (hn : (rows.map key).Nodup) :
    rows.find? (fun r => key r = k) = some r ↔ r ∈ rows ∧ key r = k := by
  have honly : ∀ r ∈ rows, ∀ r' ∈ rows, decide (key r = k) = true → decide (key r' = k) = true →
      r = r' := by
    intro r hr r' hr' h h'
    exact eq_of_key_eq hn hr hr' ((of_decide_eq_true h).trans (of_decide_eq_true h').symm)
  rw [find?_unique honly, decide_eq_true_eq]

theorem find?_perm [DecidableEq κ] {rows' : List ρ} (hn : (rows.map key).Nodup)
    (hp : rows.Perm rows') (k : κ) :
    rows.find? (fun r => key r = k) = rows'.find? (fun r => key r = k) := by
  have hn' : (rows'.map key).Nodup := (hp.map key).nodup_iff.mp hn
  refine Option.ext (fun r => ?_)
  rw [find?_eq_some hn, find?_eq_some hn', hp.mem_iff]

theorem lookup_map [BEq κ] [LawfulBEq κ] [DecidableEq κ] (rows : List ρ) (k : κ) :
    (rows.map (fun r => (key r, val r))).lookup k
      = (rows.find? (fun r => key r = k)).map val := by
  induction rows with
  | nil => rfl
  | cons r rows ih =>
    rw [map_cons, lookup_cons, List.find?_cons]
    by_cases hk : key r = k
    · rw [hk, beq_self_eq_true, decide_eq_true rfl]
      rfl
    · rw [beq_eq_false_iff_ne.mpr (Ne.symm hk), decide_eq_false hk]
      exact ih

/-- A dictionary that was filled from rows with distinct keys has the row of
    each key, whichever of two equal ones would have stayed. -/
theorem lookup_map_reverse [BEq κ] [LawfulBEq κ] [DecidableEq κ] (hn : (rows.map key).Nodup)
    (k : κ) :
    ((rows.map (fun r => (key r, val r))).reverse).lookup k
      = (rows.find? (fun r => key r = k)).map val := by
  rw [← map_reverse, lookup_map]
  rw [find?_perm hn rows.reverse_perm.symm k]

theorem filter_sublist_filter {q : ρ → Bool} (h : ∀ r ∈ rows, p r = true → q r = true) :
    (rows.filter p).Sublist (rows.filter q) := by
  have hboth : rows.filter p = (rows.filter q).filter p := by
    rw [filter_filter]
    refine filter_congr (fun r hr => ?_)
    cases hp : p r with
    | false => rfl
    | true => simp only [h r hr hp, Bool.and_self]
  rw [hboth]
  exact filter_sublist

/-- Taking the elements of one kind after those of another is taking the
    elements of any of them. -/
theorem flatMap_filter_perm (l : List ρ) (p : κ → ρ → Bool) (ks : List κ)
    (hp : ks.Pairwise (fun k k' => ∀ a, p k a = true → p k' a = false)) :
    (ks.flatMap (fun k => l.filter (p k))).Perm (l.filter (fun a => ks.any (fun k => p k a))) := by
  induction ks with
  | nil =>
    simp only [flatMap_nil, any_nil, filter_false]
    exact List.Perm.refl _
  | cons k ks ih =>
    rw [pairwise_cons] at hp
    have hother : ∀ a, p k a = true → ks.any (fun k' => p k' a) = false := by
      intro a ha
      rw [any_eq_false]
      intro k' hk'
      rw [hp.1 k' hk' a ha]
      decide
    have hfirst : l.filter (p k)
        = (l.filter (fun a => (k :: ks).any (fun k' => p k' a))).filter (p k) := by
      rw [filter_filter]
      refine filter_congr (fun a _ => ?_)
      rw [any_cons]
      cases p k a <;> rfl
    have hrest : l.filter (fun a => ks.any (fun k' => p k' a))
        = (l.filter (fun a => (k :: ks).any (fun k' => p k' a))).filter (fun a => !p k a) := by
      rw [filter_filter]
      refine filter_congr (fun a _ => ?_)
      rw [any_cons]
      cases ha : p k a with
      | true => rw [hother a ha]; rfl
      | false => rfl
    rw [flatMap_cons]
    refine ((ih hp.2).append_left _).trans ?_
    rw [hfirst, hrest]
    exact filter_append_perm _ _

/-- Updating every selected row to what it is is no update. -/
theorem updateWhere_same (h : ∀ r ∈ rows, p r = true → f r = r) : updateWhere p f rows = rows := by
  have hid : ∀ r ∈ rows, (if p r then f r else r) = id r := by
    intro r hr
    split
    · rename_i hp
      exact h r hr hp
    · rfl
  rw [updateWhere, map_congr_left hid, map_id]

theorem updateWhere_id (p : ρ → Bool) (rows : List ρ) : updateWhere p id rows = rows :=
  updateWhere_same (fun _ _ _ => rfl)

end Rows
