import Mathlib.Logic.Basic

/-!
# Programs that Raise

Programs that change a state and may raise, with what they leave behind when they do.

A program that raises keeps the changes that it made before. `handle` is
`try`/`except`: the handler runs in the state that the body left. A `Triple` says what
holds afterwards in both cases, so that a rule for `handle` can give the handler what
the body guarantees when it raises.

The rules follow the constructors of programs. A triple for a loop is proved by the
induction of the loop, with the rule for sequences in each step.

## Main definitions

* `Program`: A state transformer with an outcome.
* `Triple`: Precondition, and postconditions for both outcomes.

## Theorems

* `triple_bind`, `triple_handle`: The rules of sequences and of handlers.
* `Triple.weaken`: The rule of consequence.
-/

/-- A program over states `σ` that returns an `α` or raises an `ε`. -/
def Program (σ ε α : Type) : Type :=
  σ → Except ε α × σ

namespace Program

variable {σ ε α β : Type}

def ret (a : α) : Program σ ε α :=
  fun s => (.ok a, s)

def bind (x : Program σ ε α) (f : α → Program σ ε β) : Program σ ε β :=
  fun s => match x s with
    | (.ok a, s') => f a s'
    | (.error e, s') => (.error e, s')

instance : Monad (Program σ ε) where
  pure := ret
  bind := bind

def raise (e : ε) : Program σ ε α :=
  fun s => (.error e, s)

/-- Run a handler if the body raises. -/
def handle (x : Program σ ε α) (handler : ε → Program σ ε α) : Program σ ε α :=
  fun s => match x s with
    | (.ok a, s') => (.ok a, s')
    | (.error e, s') => handler e s'

/-- The state, as far as it is asked for. -/
def read (f : σ → α) : Program σ ε α :=
  fun s => (.ok (f s), s)

def update (f : σ → σ) : Program σ ε Unit :=
  fun s => (.ok (), f s)

/-- Raise what the environment says. -/
def check (outcome : Except ε α) : Program σ ε α :=
  fun s => (outcome, s)

/-- From states in `P`, a program returns in `Q` or raises in `E`. -/
def Triple (P : σ → Prop) (x : Program σ ε α) (Q : α → σ → Prop) (E : σ → Prop) : Prop :=
  ∀ s, P s → match x s with
    | (.ok a, s') => Q a s'
    | (.error _, s') => E s'

variable {P P' E E' : σ → Prop} {Q Q' : α → σ → Prop} {R : β → σ → Prop}

variable {a : α} {outcome : Except ε α} {x : Program σ ε α} {p : Prop}

theorem triple_ret (h : ∀ s, P s → Q a s) : Triple (ε := ε) P (pure a) Q E :=
  h

theorem triple_raise {e : ε} (h : ∀ s, P s → E s) : Triple P (raise e) Q E :=
  h

theorem triple_read {f : σ → α} (h : ∀ s, P s → Q (f s) s) : Triple (ε := ε) P (read f) Q E :=
  h

theorem triple_update {f : σ → σ} {Q : Unit → σ → Prop} (h : ∀ s, P s → Q () (f s)) :
    Triple (ε := ε) P (update f) Q E :=
  h

theorem triple_check (hok : ∀ a s, outcome = .ok a → P s → Q a s)
    (herror : ∀ e s, outcome = .error e → P s → E s) : Triple P (check outcome) Q E := by
  intro s hs
  cases houtcome : outcome with
  | ok a => exact hok a s houtcome hs
  | error e => exact herror e s houtcome hs

theorem triple_check_ok (h : outcome = .ok a) (hpost : ∀ s, P s → Q a s) :
    Triple P (check outcome) Q E := by
  rw [h]
  exact hpost

/-- What a check leaves alone holds after it. -/
theorem triple_check_same : Triple P (check outcome) (fun _ => P) P :=
  triple_check (fun _ _ _ h => h) (fun _ _ _ h => h)

theorem triple_bind {f : α → Program σ ε β} (hx : Triple P x Q E)
    (hf : ∀ a, Triple (Q a) (f a) R E) :
    Triple P (x >>= f) R E := by
  intro s hs
  have hx := hx s hs
  change match bind x f s with
    | (.ok b, s') => R b s'
    | (.error _, s') => E s'
  unfold bind
  split at hx
  · rename_i a s' _
    exact hf a s' hx
  · rename_i e s' _
    exact hx

theorem triple_handle {handler : ε → Program σ ε α} (hx : Triple P x Q E)
    (hhandler : ∀ e, Triple E (handler e) Q E') : Triple P (handle x handler) Q E' := by
  intro s hs
  have hx := hx s hs
  unfold handle
  split at hx
  · rename_i a s' _
    exact hx
  · rename_i e s' _
    exact hhandler e s' hx

theorem Triple.weaken (h : Triple P x Q E) (hpre : ∀ s, P' s → P s) (hpost : ∀ a s, Q a s → Q' a s)
    (herror : ∀ s, E s → E' s) : Triple P' x Q' E' := by
  intro s hs
  have h := h s (hpre s hs)
  split at h
  · rename_i a s' _
    exact hpost a s' h
  · rename_i e s' _
    exact herror s' h

/-- A precondition that does not depend on the state. -/
theorem triple_pure (h : p → Triple P x Q E) : Triple (fun s => p ∧ P s) x Q E :=
  fun s hs => h hs.1 s hs.2

theorem triple_ite [Decidable p] {y : Program σ ε α} (hx : p → Triple P x Q E)
    (hy : ¬ p → Triple P y Q E) : Triple P (if p then x else y) Q E := by
  by_cases hp : p
  · rw [if_pos hp]
    exact hx hp
  · rw [if_neg hp]
    exact hy hp

end Program
