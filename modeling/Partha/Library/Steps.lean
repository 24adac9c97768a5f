import Mathlib.Logic.Relation

/-!
# Step Systems

A system whose steps are picked by an action and may be refused.

`step` is a function to `Option`, so a system can be run: `exec` folds it over
a list of actions, and a concrete interleaving is a list that evaluates. The
nondeterminism of a concurrent system sits in the choice of the action, which
names the actor that moves and whatever the environment decides for it.

Reachability carries a condition on the steps taken. `Path ok` is the
reflexive transitive closure of the steps that satisfy `ok`, so a run in which
every step meets some condition is the same notion as an arbitrary run, with a
stronger `ok`. An invariant that needs the condition and one that does not are
proved by the same rule.

`path_rel` is the rule for facts about two moments of one run: a counter that
never decreases, a row that is never rewritten. Such a fact is a reflexive and
transitive relation between states, and it is enough that every single step
satisfies it in the states an invariant allows.

## Main definitions

* `StepSystem`: Initial states and a partial step function.
* `Next`: One step whose state and action satisfy a condition.
* `Path`: Any number of such steps.
* `ReachableBy`: A state some conditioned path reaches from an initial state.
* `Reachable`: A state any path reaches.
* `exec`: Running a list of actions.
* `Meets`: A condition on the steps of such a run.

## Theorems

* `path_of_meets`: A list of actions that evaluates and meets a condition is a path.
* `path_of_exec`: A list of actions that evaluates is a path.
* `reachable_of_exec`: The same, out of an initial state.
* `path_invariant`: The induction rule for invariants along a path.
* `reachableBy_invariant`: The induction rule for invariants of a system.
* `path_rel`: The induction rule for relations between two moments of a run.
* `reachableBy_path`: Reachability extends along a path.
-/

/-- A system given by its initial states and a step function that may refuse
    an action. -/
structure StepSystem (σ α : Type*) where
  init : σ → Prop
  step : σ → α → Option σ

namespace StepSystem

variable {σ α : Type*} (S : StepSystem σ α)

/-- One step, taken in a state and by an action that satisfy `ok`. -/
def Next (ok : σ → α → Prop) (s s' : σ) : Prop :=
  ∃ a, ok s a ∧ S.step s a = some s'

/-- Any number of steps that satisfy `ok`. -/
def Path (ok : σ → α → Prop) : σ → σ → Prop :=
  Relation.ReflTransGen (S.Next ok)

/-- The states that steps satisfying `ok` reach from an initial state. -/
def ReachableBy (ok : σ → α → Prop) (s : σ) : Prop :=
  ∃ s₀, S.init s₀ ∧ S.Path ok s₀ s

/-- The states that any steps reach from an initial state. -/
def Reachable (s : σ) : Prop :=
  S.ReachableBy (fun _ _ => True) s

/-- Run a list of actions, refusing the whole list if one is refused. -/
def exec : σ → List α → Option σ
  | s, [] => some s
  | s, a :: as => match S.step s a with
    | none => none
    | some s' => exec s' as

/-- The steps of a list of actions satisfy `ok`, as far as they are not refused. -/
def Meets (ok : σ → α → Prop) : σ → List α → Prop
  | _, [] => True
  | s, a :: as => ok s a ∧ match S.step s a with
    | none => True
    | some s' => Meets ok s' as

variable {S}

variable {ok : σ → α → Prop} {s t : σ} {as : List α} {I : σ → Prop}

theorem path_of_meets (h : S.exec s as = some t) (hok : S.Meets ok s as) : S.Path ok s t := by
  induction as generalizing s with
  | nil =>
    simp only [exec, Option.some.injEq] at h
    rw [h]
    exact Relation.ReflTransGen.refl
  | cons a as ih =>
    simp only [exec] at h
    simp only [Meets] at hok
    cases hstep : S.step s a with
    | none =>
      rw [hstep] at h
      cases h
    | some s' =>
      rw [hstep] at h hok
      exact Relation.ReflTransGen.head ⟨a, hok.1, hstep⟩ (ih h hok.2)

theorem meets_true (s : σ) (as : List α) : S.Meets (fun _ _ => True) s as := by
  induction as generalizing s with
  | nil => trivial
  | cons a as ih =>
    simp only [Meets]
    cases S.step s a with
    | none => exact ⟨trivial, trivial⟩
    | some s' => exact ⟨trivial, ih s'⟩

theorem path_of_exec (h : S.exec s as = some t) : S.Path (fun _ _ => True) s t :=
  path_of_meets h (meets_true s as)

theorem reachable_of_exec {s₀ : σ} (h₀ : S.init s₀) (h : S.exec s₀ as = some t) : S.Reachable t :=
  ⟨s₀, h₀, path_of_exec h⟩

/-- An invariant that every conditioned step keeps holds along a path. -/
theorem path_invariant (hstep : ∀ s a s', I s → ok s a → S.step s a = some s' → I s') (hs : I s)
    (hp : S.Path ok s t) : I t := by
  induction hp with
  | refl => exact hs
  | tail _ hnext ih =>
    rcases hnext with ⟨a, ha, h⟩
    exact hstep _ a _ ih ha h

/-- An invariant of the initial states that every conditioned step keeps holds
    in every state the system reaches. -/
theorem reachableBy_invariant (hinit : ∀ s, S.init s → I s)
    (hstep : ∀ s a s', I s → ok s a → S.step s a = some s' → I s') (hr : S.ReachableBy ok s) :
    I s := by
  rcases hr with ⟨s₀, h₀, hp⟩
  exact path_invariant hstep (hinit s₀ h₀) hp

/-- A reflexive and transitive relation that every step satisfies, in the
    states an invariant allows, relates the two ends of a path. -/
theorem path_rel {R : σ → σ → Prop} (hrefl : ∀ s, R s s) (htrans : ∀ s t u, R s t → R t u → R s u)
    (hinv : ∀ s a s', I s → ok s a → S.step s a = some s' → I s')
    (hstep : ∀ s a s', I s → ok s a → S.step s a = some s' → R s s')
    (hs : I s) (hp : S.Path ok s t) :
    R s t := by
  -- The invariant travels with the relation, since each step needs it.
  have hboth : I t ∧ R s t := by
    induction hp with
    | refl => exact ⟨hs, hrefl s⟩
    | tail _ hnext ih =>
      rcases hnext with ⟨a, ha, h⟩
      exact ⟨hinv _ a _ ih.1 ha h, htrans _ _ _ ih.2 (hstep _ a _ ih.1 ha h)⟩
  exact hboth.2

theorem reachableBy_path (hr : S.ReachableBy ok s) (hp : S.Path ok s t) : S.ReachableBy ok t := by
  rcases hr with ⟨s₀, h₀, hp₀⟩
  exact ⟨s₀, h₀, hp₀.trans hp⟩

end StepSystem
