import Mathlib.Data.List.Forall2
import Mathlib.Data.List.Perm.Basic

/-!
# Checked Lists

A list whose elements pass through a computation that may fail, and which fails
as soon as one element does.

What such a list gives is described element by element. `collect_eq_ok` says
which list comes out, `mem_collect` says which elements it has, and
`collect_ok_iff` says when there is one at all. The last two do not mention the
order of the list, so they also compare two lists with the same elements.

## Main definitions

* `collect`: The results of all elements, or the first error.
* `select`: The elements that pass a test, or the first error of the test.

## Theorems

* `bind_eq_ok`: When two computations in a row succeed.
* `collect_eq_ok`: The results, element by element.
* `mem_collect`: Where a result comes from.
* `collect_ok_iff`: A list succeeds exactly when its elements do.
* `collect_error`: Where an error comes from.
* `collect_eq_map`: A list that succeeds under a condition on each element.
* `collect_bind`: Two computations after each other.
* `select_ok_iff`: A list is tested exactly when its elements are.
-/

namespace Checked

open List

universe u

variable {ε : Type*} {α β γ : Type u}

@[simp]
theorem ok_bind (a : α) (f : α → Except ε β) : (Except.ok a >>= f) = f a :=
  rfl

@[simp]
theorem error_bind (e : ε) (f : α → Except ε β) : (Except.error e >>= f) = .error e :=
  rfl

variable {x : Except ε α} {f : α → Except ε β} {b : β} {l : List α} {m : List β} {R : α → β → Prop}
  {a : α} {p : α → Except ε Bool}

theorem bind_eq_ok : (x >>= f) = .ok b ↔ ∃ a, x = .ok a ∧ f a = .ok b := by
  cases x with
  | error e =>
    constructor
    · intro h
      cases h
    · rintro ⟨a, h, _⟩
      cases h
  | ok a =>
    constructor
    · exact fun h => ⟨a, rfl, h⟩
    · rintro ⟨a', h, hf⟩
      cases h
      exact hf

theorem map_eq_ok {f : α → β} : (f <$> x) = .ok b ↔ ∃ a, x = .ok a ∧ f a = b := by
  cases x with
  | error e =>
    constructor
    · intro h
      cases h
    · rintro ⟨a, h, _⟩
      cases h
  | ok a =>
    constructor
    · exact fun h => ⟨a, rfl, Except.ok.inj h⟩
    · rintro ⟨a', h, hf⟩
      cases h
      exact congrArg Except.ok hf

/-- The results of all elements, or the error of the first that has none. -/
def collect (f : α → Except ε β) : List α → Except ε (List β)
  | [] => .ok []
  | a :: l => do
    let b ← f a
    let m ← collect f l
    .ok (b :: m)

theorem collect_eq_ok : collect f l = .ok m ↔ List.Forall₂ (fun a b => f a = .ok b) l m := by
  induction l generalizing m with
  | nil =>
    rw [List.forall₂_nil_left_iff]
    exact ⟨fun h => (Except.ok.inj h).symm, fun h => by rw [h]; rfl⟩
  | cons a l ih =>
    unfold collect
    rw [bind_eq_ok]
    constructor
    · rintro ⟨b, hb, h⟩
      rcases bind_eq_ok.mp h with ⟨m', hm, h⟩
      cases h
      exact List.Forall₂.cons hb (ih.mp hm)
    · intro h
      cases h with
      | cons hb hm => exact ⟨_, hb, bind_eq_ok.mpr ⟨_, ih.mpr hm, rfl⟩⟩

theorem forall₂_mem_right (h : List.Forall₂ R l m) (hb : b ∈ m) : ∃ a ∈ l, R a b := by
  induction h with
  | nil => cases hb
  | cons hab _ ih =>
    rcases mem_cons.mp hb with rfl | hb
    · exact ⟨_, mem_cons_self, hab⟩
    · rcases ih hb with ⟨a, ha, hr⟩
      exact ⟨a, mem_cons_of_mem _ ha, hr⟩

theorem forall₂_mem_left (h : List.Forall₂ R l m) (ha : a ∈ l) : ∃ b ∈ m, R a b := by
  induction h with
  | nil => cases ha
  | cons hab _ ih =>
    rcases mem_cons.mp ha with rfl | ha
    · exact ⟨_, mem_cons_self, hab⟩
    · rcases ih ha with ⟨b, hb, hr⟩
      exact ⟨b, mem_cons_of_mem _ hb, hr⟩

theorem forall₂_zip_left (h : List.Forall₂ R l m) (ha : a ∈ l) : ∃ b, (a, b) ∈ l.zip m ∧ R a b := by
  induction h with
  | nil => cases ha
  | cons hab _ ih =>
    rcases mem_cons.mp ha with rfl | ha
    · exact ⟨_, mem_cons_self, hab⟩
    · rcases ih ha with ⟨b, hb, hr⟩
      exact ⟨b, mem_cons_of_mem _ hb, hr⟩

/-- Items that are related in two steps, one by one. -/
theorem forall₂_chain {S : β → γ → Prop} :
    (∃ m n, List.Forall₂ R l m ∧ List.Forall₂ S m n) ↔ ∀ a ∈ l, ∃ b c, R a b ∧ S b c := by
  induction l with
  | nil =>
    refine iff_of_true ⟨[], [], List.Forall₂.nil, List.Forall₂.nil⟩ ?_
    exact fun a ha => absurd ha not_mem_nil
  | cons a l ih =>
    rw [forall_mem_cons, ← ih]
    constructor
    · rintro ⟨m, n, hm, hn⟩
      cases hm with
      | @cons _ b _ m hab hm =>
        cases hn with
        | @cons _ c _ n hbc hn => exact ⟨⟨b, c, hab, hbc⟩, m, n, hm, hn⟩
    · rintro ⟨⟨b, c, hab, hbc⟩, m, n, hm, hn⟩
      exact ⟨b :: m, c :: n, List.Forall₂.cons hab hm, List.Forall₂.cons hbc hn⟩

theorem mem_collect (h : collect f l = .ok m) : b ∈ m ↔ ∃ a ∈ l, f a = .ok b := by
  have hall := collect_eq_ok.mp h
  constructor
  · exact fun hb => forall₂_mem_right hall hb
  · rintro ⟨a, ha, hab⟩
    rcases forall₂_mem_left hall ha with ⟨b', hb', hab'⟩
    rw [hab] at hab'
    rw [Except.ok.inj hab']
    exact hb'

theorem forall₂_append_left {l' : List α} :
    List.Forall₂ R (l ++ l') m ↔
      ∃ n n', List.Forall₂ R l n ∧ List.Forall₂ R l' n' ∧ m = n ++ n' := by
  induction l generalizing m with
  | nil =>
    simp only [nil_append, List.forall₂_nil_left_iff]
    constructor
    · exact fun h => ⟨[], m, rfl, h, rfl⟩
    · rintro ⟨_, n', rfl, h, rfl⟩
      exact h
  | cons a l ih =>
    rw [cons_append, List.forall₂_cons_left_iff]
    constructor
    · rintro ⟨b, m, hab, hm, rfl⟩
      rcases ih.mp hm with ⟨n, n', hn, hn', rfl⟩
      exact ⟨b :: n, n', List.Forall₂.cons hab hn, hn', rfl⟩
    · rintro ⟨_, n', hn, hn', rfl⟩
      rcases List.forall₂_cons_left_iff.mp hn with ⟨b, n, hab, hrest, rfl⟩
      exact ⟨b, n ++ n', hab, ih.mpr ⟨n, n', hrest, hn', rfl⟩, rfl⟩

theorem collect_ok_iff : (∃ m, collect f l = .ok m) ↔ ∀ a ∈ l, ∃ b, f a = .ok b := by
  constructor
  · rintro ⟨m, h⟩ a ha
    rcases forall₂_mem_left (collect_eq_ok.mp h) ha with ⟨b, _, hab⟩
    exact ⟨b, hab⟩
  · intro h
    induction l with
    | nil => exact ⟨[], rfl⟩
    | cons a l ih =>
      rcases h a mem_cons_self with ⟨b, hb⟩
      rcases ih (fun a' ha' => h a' (mem_cons_of_mem a ha')) with ⟨m, hm⟩
      exact ⟨b :: m, collect_eq_ok.mpr (List.Forall₂.cons hb (collect_eq_ok.mp hm))⟩

/-- A list that fails does so with the error of one of its elements. -/
theorem collect_error {e : ε} (h : collect f l = .error e) : ∃ a ∈ l, f a = .error e := by
  induction l with
  | nil => cases h
  | cons a l ih =>
    rw [collect] at h
    cases ha : f a with
    | error e' =>
      rw [ha] at h
      exact ⟨a, mem_cons_self, by rw [ha, Except.error.inj h]⟩
    | ok b =>
      cases hl : collect f l with
      | error e' =>
        rw [ha, hl] at h
        rcases ih (by rw [hl, Except.error.inj h]) with ⟨a', ha', herror⟩
        exact ⟨a', mem_cons_of_mem a ha', herror⟩
      | ok m =>
        rw [ha, hl] at h
        cases h

/-- A computation that leaves every element alone leaves the list alone. -/
theorem collect_self {f : α → Except ε α} (h : ∀ a ∈ l, f a = .ok a) : collect f l = .ok l :=
  collect_eq_ok.mpr (List.forall₂_same.mpr h)

/-- A computation that succeeds under a condition, with one result. -/
theorem collect_eq_map {g : α → β} {P : α → Prop} (h : ∀ a ∈ l, ∀ b, f a = .ok b ↔ P a ∧ b = g a) :
    collect f l = .ok m ↔ (∀ a ∈ l, P a) ∧ m = l.map g := by
  induction l generalizing m with
  | nil =>
    refine ⟨fun h => ⟨fun a ha => absurd ha not_mem_nil, (Except.ok.inj h).symm⟩, fun h => ?_⟩
    rw [h.2]
    rfl
  | cons a l ih =>
    have ih' := fun m => ih (m := m) (fun a' ha' => h a' (mem_cons_of_mem a ha'))
    unfold collect
    rw [bind_eq_ok]
    constructor
    · rintro ⟨b, hb, hrest⟩
      rcases bind_eq_ok.mp hrest with ⟨m', hm', hm⟩
      rcases (h a mem_cons_self b).mp hb with ⟨ha, rfl⟩
      rcases (ih' m').mp hm' with ⟨hl, rfl⟩
      exact ⟨forall_mem_cons.mpr ⟨ha, hl⟩, (Except.ok.inj hm).symm⟩
    · rintro ⟨hall, rfl⟩
      rw [forall_mem_cons] at hall
      exact ⟨g a, (h a mem_cons_self _).mpr ⟨hall.1, rfl⟩,
        bind_eq_ok.mpr ⟨l.map g, (ih' _).mpr ⟨hall.2, rfl⟩, rfl⟩⟩

/-- A list that passes through two computations passes through both at once. -/
theorem collect_bind {g : β → Except ε γ} {n : List γ} :
    (∃ m, collect f l = .ok m ∧ collect g m = .ok n) ↔
      collect (fun a => do let b ← f a; g b) l = .ok n := by
  induction l generalizing n with
  | nil =>
    constructor
    · rintro ⟨m, hm, hn⟩
      rw [← Except.ok.inj hm] at hn
      exact hn
    · exact fun h => ⟨[], rfl, h⟩
  | cons a l ih =>
    simp only [collect, bind_eq_ok]
    constructor
    · rintro ⟨_, ⟨b, hb, m, hm, hbm⟩, hn⟩
      rw [← Except.ok.inj hbm] at hn
      rcases bind_eq_ok.mp hn with ⟨c, hc, hn⟩
      rcases bind_eq_ok.mp hn with ⟨n', hn', hn⟩
      exact ⟨c, ⟨b, hb, hc⟩, n', ih.mp ⟨m, hm, hn'⟩, hn⟩
    · rintro ⟨c, ⟨b, hb, hc⟩, n', hn', hn⟩
      rcases ih.mpr hn' with ⟨m, hm, hmn⟩
      exact ⟨b :: m, ⟨b, hb, m, hm, rfl⟩, bind_eq_ok.mpr ⟨c, hc, bind_eq_ok.mpr ⟨n', hmn, hn⟩⟩⟩

/-- The elements that pass a test, and the first error of the test if there is one. -/
def select (p : α → Except ε Bool) : List α → Except ε (List α)
  | [] => .ok []
  | a :: l =>
    (p a).bind fun b => (select p l).bind fun m => .ok (if b then a :: m else m)

theorem select_cons_eq_ok {n : List α} :
    select p (a :: l) = .ok n ↔
      ∃ b m, p a = .ok b ∧ select p l = .ok m ∧ n = if b then a :: m else m := by
  rw [select]
  constructor
  · intro h
    cases hb : p a with
    | error e =>
      rw [hb] at h
      exact absurd h (by simp [Except.bind])
    | ok b =>
      cases hm : select p l with
      | error e =>
        rw [hb, hm] at h
        exact absurd h (by simp [Except.bind])
      | ok m =>
        rw [hb, hm] at h
        exact ⟨b, m, rfl, rfl, (Except.ok.inj h).symm⟩
  · rintro ⟨b, m, hb, hm, rfl⟩
    rw [hb, hm]
    rfl

theorem select_ok_iff : (∃ m, select p l = .ok m) ↔ ∀ a ∈ l, ∃ b, p a = .ok b := by
  induction l with
  | nil => exact ⟨fun _ a ha => absurd ha not_mem_nil, fun _ => ⟨[], rfl⟩⟩
  | cons a l ih =>
    rw [forall_mem_cons, ← ih]
    constructor
    · rintro ⟨n, hn⟩
      rcases select_cons_eq_ok.mp hn with ⟨b, m, hb, hm, -⟩
      exact ⟨⟨b, hb⟩, m, hm⟩
    · rintro ⟨⟨b, hb⟩, m, hm⟩
      exact ⟨_, select_cons_eq_ok.mpr ⟨b, m, hb, hm, rfl⟩⟩

/-- A search succeeds if every test does. -/
theorem anyM_eq_ok (h : ∀ a ∈ l, ∃ b, p a = .ok b) : ∃ b, l.anyM p = .ok b := by
  induction l with
  | nil => exact ⟨false, rfl⟩
  | cons a l ih =>
    rcases h a mem_cons_self with ⟨b, hb⟩
    rcases ih (fun a ha => h a (mem_cons_of_mem _ ha)) with ⟨b', hb'⟩
    rw [List.anyM, hb]
    cases b with
    | true => exact ⟨true, rfl⟩
    | false => exact ⟨b', hb'⟩

end Checked
