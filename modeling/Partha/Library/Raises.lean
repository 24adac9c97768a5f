import Partha.Library.Checked

/-!
# What a Computation May Raise

A computation that may fail, and a set of errors that its caller is prepared for.

Whether a computation raises only what is expected is decided step by step: the
first step has to, and the rest has to for every value that the first step gives.
An error that is translated on its way is expected after the translation iff it was
before.

## Main definitions

* `RaisesOnly`: Every error of a computation is expected.
* `translate`: A computation whose errors of one kind become another error.

## Theorems

* `raisesOnly_bind`: Two computations after each other.
* `raisesOnly_translate`: A computation with a handler.
* `translate_eq_ok`: A handler changes no result.
-/

namespace Checked

variable {ε α β : Type*}

/-- Every error of a computation is expected. -/
def RaisesOnly (expected : ε → Prop) (x : Except ε α) : Prop :=
  ∀ e, x = .error e → expected e

@[simp]
theorem raisesOnly_ok (expected : ε → Prop) (a : α) :
    RaisesOnly expected (Except.ok a : Except ε α) := by
  intro e h
  cases h

variable {expected : ε → Prop} {handles : ε → Bool} {instead : ε}

@[simp]
theorem raisesOnly_error {e : ε} :
    RaisesOnly expected (Except.error e : Except ε α) ↔ expected e := by
  constructor
  · exact fun h => h e rfl
  · intro he e' h
    rw [← Except.error.inj h]
    exact he

/-- Two computations after each other raise what is expected iff the first does, and
    the second does for every result of the first. -/
theorem raisesOnly_bind {α β : Type _} {x : Except ε α} {f : α → Except ε β} :
    RaisesOnly expected (x >>= f) ↔
      RaisesOnly expected x ∧ ∀ a, x = .ok a → RaisesOnly expected (f a) := by
  cases x with
  | error e =>
    constructor
    · intro h
      refine ⟨raisesOnly_error.mpr (h e rfl), ?_⟩
      intro a ha
      cases ha
    · exact fun h => raisesOnly_error.mpr (raisesOnly_error.mp h.1)
  | ok a =>
    constructor
    · intro h
      refine ⟨raisesOnly_ok expected a, ?_⟩
      intro a' ha
      cases ha
      exact h
    · exact fun h => h.2 a rfl

/-- A computation whose errors of one kind become another error. -/
def translate (handles : ε → Bool) (instead : ε) (x : Except ε α) : Except ε α :=
  match x with
  | .ok a => .ok a
  | .error e => if handles e then .error instead else .error e

/-- A handler changes no result. -/
theorem translate_eq_ok {x : Except ε α} {a : α} :
    translate handles instead x = .ok a ↔ x = .ok a := by
  cases x with
  | ok b => rfl
  | error e =>
    unfold translate
    by_cases h : handles e = true
    · simp [h]
    · simp [h]

/-- A computation with a handler raises what is expected iff it raises nothing
    else without the handler than what is expected or handled. -/
theorem raisesOnly_translate {x : Except ε α} (hinstead : expected instead) :
    RaisesOnly expected (translate handles instead x) ↔
      RaisesOnly (fun e => handles e = true ∨ expected e) x := by
  cases x with
  | ok a => exact iff_of_true (raisesOnly_ok _ a) (raisesOnly_ok _ a)
  | error e =>
    rw [raisesOnly_error]
    have htranslate : translate handles instead (.error e : Except ε α) =
        if handles e then .error instead else .error e := rfl
    rw [htranslate]
    by_cases h : handles e = true
    · rw [if_pos h, raisesOnly_error]
      exact iff_of_true hinstead (.inl h)
    · rw [if_neg h, raisesOnly_error]
      exact ⟨.inr, fun he => he.resolve_left h⟩

end Checked
