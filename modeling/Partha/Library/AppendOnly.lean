import Mathlib.Data.List.Nodup
import Partha.Library.Checked

/-!
# Append-Only Tables

A table to which rows are only appended, and of which a row is identified by its place, the number
of rows before it. A row is looked up before it is inserted, and what was found once is found later.

A loop over a state that can fail is a `foldlM`, and a loop of checks is `each`.

## Main definitions

* `Numbered`: The rows are identified by their places.
* `each`: A check of all elements, the first failure of which counts.

## Theorems

* `Numbered.concat`: A row with the next number is appended.
* `find?_prefix`: What was found in a table is found in a longer one.
* `each_eq_ok`: All checks pass iff each does.
* `foldlM_rel`, `foldlM_done`: What a loop does, and what it has done, from what one step does.
-/

namespace Partha

namespace AppendOnly

open Checked List

section Tables

variable {ρ κ : Type*}

/-- The rows are identified by their places. -/
def Numbered (id : ρ → Nat) (rows : List ρ) : Prop :=
  rows.map id = List.range rows.length

theorem numbered_nil (id : ρ → Nat) : Numbered id [] :=
  rfl

variable {id : ρ → Nat} {rows : List ρ} {row : ρ} {key : ρ → κ} {p : ρ → Bool}

theorem Numbered.concat (h : Numbered id rows) (hrow : id row = rows.length) :
    Numbered id (rows ++ [row]) := by
  rw [Numbered, map_append, h, length_append, length_singleton, range_succ,
    map_singleton, hrow]

theorem Numbered.lt (h : Numbered id rows) (hrow : row ∈ rows) : id row < rows.length := by
  have hmem : id row ∈ rows.map id := mem_map.mpr ⟨row, hrow, rfl⟩
  rw [h, mem_range] at hmem
  exact hmem

/-- A key that is not found is not the key of a row. -/
theorem not_mem_of_find? [DecidableEq κ] {k : κ}
    (h : rows.find? (fun row => decide (key row = k)) = none) : k ∉ rows.map key := by
  intro hmem
  rcases mem_map.mp hmem with ⟨row, hrow, hkey⟩
  exact absurd (decide_eq_true hkey) (List.find?_eq_none.mp h row hrow)

theorem nodup_concat (h : (rows.map key).Nodup) (hrow : key row ∉ rows.map key) :
    ((rows ++ [row]).map key).Nodup := by
  rw [map_append, map_singleton]
  exact nodup_append.mpr ⟨h, nodup_singleton _,
    fun k hk k' hk' he => hrow (by rw [← mem_singleton.mp hk', ← he]; exact hk)⟩

theorem find?_prefix {rows' : List ρ} (h : rows <+: rows') (hfind : rows.find? p = some row) :
    rows'.find? p = some row := by
  rcases h with ⟨more, rfl⟩
  rw [List.find?_append, hfind]
  rfl

/-- A row that is appended because nothing was found is found. -/
theorem find?_concat (h : rows.find? p = none) (hrow : p row = true) :
    (rows ++ [row]).find? p = some row := by
  rw [List.find?_append, h, List.find?_cons_of_pos hrow]
  rfl

end Tables

section Loops

variable {ε α σ : Type*}

/-- The loop `for a in l: check(a)`. -/
def each (check : α → Except ε Unit) : List α → Except ε Unit
  | [] => .ok ()
  | a :: l => do
      check a
      each check l

variable {l : List α} {R : σ → σ → Prop} {s s' : σ}

theorem each_eq_ok {check : α → Except ε Unit} :
    each check l = .ok () ↔ ∀ a ∈ l, check a = .ok () := by
  induction l with
  | nil => exact iff_of_true rfl (fun a ha => absurd ha not_mem_nil)
  | cons a l ih =>
    rw [each, bind_eq_ok, forall_mem_cons]
    constructor
    · rintro ⟨u, hu, hl⟩
      exact ⟨hu, ih.mp hl⟩
    · exact fun h => ⟨(), h.1, ih.mpr h.2⟩

/-- A check with a message. -/
def ensure (c : Prop) [Decidable c] (e : ε) : Except ε Unit :=
  if c then .ok () else .error e

@[simp]
theorem ensure_eq_ok {c : Prop} [Decidable c] {e : ε} {u : Unit} : ensure c e = .ok u ↔ c := by
  rw [ensure]
  by_cases hc : c
  · rw [if_pos hc]
    exact iff_of_true rfl hc
  · rw [if_neg hc]
    exact iff_of_false (fun h => by cases h) hc

/-- Two checks, one after the other. -/
theorem seq_eq_ok {x y : Except ε Unit} :
    (x >>= fun _ => y) = .ok () ↔ x = .ok () ∧ y = .ok () := by
  rw [bind_eq_ok]
  exact ⟨fun ⟨_, hx, hy⟩ => ⟨hx, hy⟩, fun h => ⟨(), h.1, h.2⟩⟩

variable {f : σ → α → Except ε σ}

theorem foldlM_rel (hrefl : ∀ s, R s s) (htrans : ∀ s t u, R s t → R t u → R s u)
    (hstep : ∀ a ∈ l, ∀ s s', f s a = .ok s' → R s s') (h : l.foldlM f s = .ok s') : R s s' := by
  induction l generalizing s with
  | nil => rw [← Except.ok.inj h]; exact hrefl s
  | cons a l ih =>
    rw [foldlM_cons] at h
    rcases bind_eq_ok.mp h with ⟨t, ht, h⟩
    exact htrans s t s' (hstep a mem_cons_self s t ht)
      (ih (fun b hb => hstep b (mem_cons_of_mem a hb)) h)

/-- What each step does to its element, and later steps leave as it is, is done after the loop. -/
theorem foldlM_done {Done : σ → α → Prop} (hrefl : ∀ s, R s s)
    (htrans : ∀ s t u, R s t → R t u → R s u) (hkeep : ∀ s t a, R s t → Done s a → Done t a)
    (hstep : ∀ a ∈ l, ∀ s s', f s a = .ok s' → R s s' ∧ Done s' a) (h : l.foldlM f s = .ok s') :
    ∀ a ∈ l, Done s' a := by
  induction l generalizing s with
  | nil => exact fun a ha => absurd ha not_mem_nil
  | cons a l ih =>
    rw [foldlM_cons] at h
    rcases bind_eq_ok.mp h with ⟨t, ht, h⟩
    have hlater := fun b hb => hstep b (mem_cons_of_mem a hb)
    refine forall_mem_cons.mpr ⟨?_, ih hlater h⟩
    exact hkeep t s' a (foldlM_rel hrefl htrans (fun b hb s s' hs => (hlater b hb s s' hs).1) h)
      (hstep a mem_cons_self s t ht).2

/-- A loop over elements for which nothing is left to do. -/
theorem foldlM_same (h : ∀ a ∈ l, f s a = .ok s) : l.foldlM f s = .ok s := by
  induction l with
  | nil => rfl
  | cons a l ih =>
    rw [foldlM_cons, h a mem_cons_self]
    exact ih (fun b hb => h b (mem_cons_of_mem a hb))

end Loops

end AppendOnly

end Partha
