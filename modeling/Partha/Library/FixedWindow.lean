import Mathlib.Algebra.Order.Monoid.Unbundled.Basic
import Mathlib.Data.List.Basic

/-!
# Fixed Windows

A counter that starts again when its window is over. The window of a counter is opened by the
first hit, and by every hit that finds the last one closed.

Hits are admitted up to a limit in each window. No window that was opened in an interval as long
as a window is over before the interval is, so at most two windows have hits in it, and at most
twice the limit is admitted.

When a window is over is a parameter. All that is needed is that it is open for its length.

## Main definitions

* `Window`: A counter and the time of the first hit.
* `hit`: A hit at some time.
* `hits`: The counts after each of a list of hits.
* `admitted`: How many of them are within the limit, in an interval.

## Theorems

* `admitted_of_opened`: A window that was opened in the interval.
* `admitted_le`: Any interval that is as long as a window.
-/

namespace FixedWindow

open List

variable {T : Type*}

/-- A counter and the time of the first hit. -/
structure Window (T : Type*) where
  start : T
  count : Nat

/-- A hit at some time, on a counter that may not be there yet. -/
def hit (closed : T → T → Bool) (window : Option (Window T)) (now : T) : Window T :=
  match window with
  | none => ⟨now, 1⟩
  | some w => if closed w.start now then ⟨now, 1⟩ else ⟨w.start, w.count + 1⟩

/-- The time of each hit of a list, with the count after it. -/
def hits (closed : T → T → Bool) : Option (Window T) → List T → List (T × Nat)
  | _, [] => []
  | window, now :: times =>
    (now, (hit closed window now).count) :: hits closed (some (hit closed window now)) times

theorem hit_none (closed : T → T → Bool) (now : T) : hit closed none now = ⟨now, 1⟩ :=
  rfl

variable {closed : T → T → Bool} {w : Window T} {now : T}

theorem hit_closed (h : closed w.start now = true) : hit closed (some w) now = ⟨now, 1⟩ :=
  if_pos h

theorem hit_open (h : closed w.start now = false) :
    hit closed (some w) now = ⟨w.start, w.count + 1⟩ :=
  if_neg (Bool.eq_false_iff.mp h)

theorem hit_count_pos (closed : T → T → Bool) (window : Option (Window T)) (now : T) :
    0 < (hit closed window now).count := by
  cases window with
  | none => exact Nat.one_pos
  | some w =>
    by_cases h : closed w.start now = true
    · rw [hit_closed h]
      exact Nat.one_pos
    · rw [hit_open (Bool.eq_false_iff.mpr h)]
      exact Nat.succ_pos _

/-- A window that has been hit before is open. -/
theorem open_of_count {window : Option (Window T)} (h : 1 < (hit closed window now).count) :
    closed (hit closed window now).start now = false := by
  cases window with
  | none => exact absurd h (lt_irrefl 1)
  | some w =>
    by_cases hclosed : closed w.start now = true
    · rw [hit_closed hclosed] at h
      exact absurd h (lt_irrefl 1)
    · rw [hit_open (Bool.eq_false_iff.mpr hclosed)]
      exact Bool.eq_false_iff.mpr hclosed

section Bound

variable [LinearOrder T] [Add T] (limit : Nat) (t length : T)

/-- How many hits are within the limit, in the interval from `t` that is as long as a window. -/
def admitted (answers : List (T × Nat)) : Nat :=
  answers.countP fun a => decide (t ≤ a.1 ∧ a.1 < t + length ∧ a.2 ≤ limit)

theorem admitted_cons (a : T × Nat) (answers : List (T × Nat)) :
    admitted limit t length (a :: answers) = admitted limit t length answers +
      if t ≤ a.1 ∧ a.1 < t + length ∧ a.2 ≤ limit then 1 else 0 := by
  simp [admitted, countP_cons]

variable {limit t length} {closed : T → T → Bool}

variable {times : List T}

/-- Nothing is counted after the interval. -/
theorem admitted_after (h : ∀ now ∈ times, t + length ≤ now) (window : Option (Window T)) :
    admitted limit t length (hits closed window times) = 0 := by
  induction times generalizing window with
  | nil => rfl
  | cons now times ih =>
    have hnow : ¬ (t ≤ now ∧ now < t + length ∧ (hit closed window now).count ≤ limit) :=
      fun hc => absurd hc.2.1 (not_lt.mpr (h now mem_cons_self))
    rw [hits, admitted_cons, ih (fun now' hmem => h now' (mem_cons_of_mem now hmem)),
      if_neg hnow]

variable [AddRightMono T] (hopen : ∀ s now, now < s + length → closed s now = false)

include hopen

/-- A window that was opened in the interval stays open until the interval is over. -/
theorem admitted_of_opened (hsorted : times.Pairwise (· ≤ ·)) {w : Window T} (hw : t ≤ w.start) :
    admitted limit t length (hits closed (some w) times) ≤ limit - w.count := by
  induction times generalizing w with
  | nil => exact Nat.zero_le _
  | cons now times ih =>
    rcases pairwise_cons.mp hsorted with ⟨hle, hrest⟩
    by_cases hnow : now < t + length
    · have hstill : now < w.start + length := lt_of_lt_of_le hnow (by gcongr)
      have hopened := ih hrest (w := ⟨w.start, w.count + 1⟩) hw
      rw [hits, admitted_cons, hit_open (hopen w.start now hstill)]
      split
      · rename_i hcounted
        have hlimit : w.count + 1 ≤ limit := hcounted.2.2
        dsimp only at hopened
        omega
      · dsimp only at hopened
        omega
    · -- The interval is over, and the later hits are later still.
      rw [admitted_after (fun now' hmem => ?_)]
      · exact Nat.zero_le _
      · rcases mem_cons.mp hmem with rfl | hmem
        · exact not_lt.mp hnow
        · exact (not_lt.mp hnow).trans (hle now' hmem)

/-- Once the interval has begun, what is left of the window and one more window. -/
theorem admitted_from (hsorted : times.Pairwise (· ≤ ·)) (hfrom : ∀ now ∈ times, t ≤ now)
    (window : Option (Window T)) :
    admitted limit t length (hits closed window times) ≤ 2 * limit := by
  -- A window with `n` hits leaves room for `limit - n` more before the next one.
  have hleft : ∀ (times : List T), times.Pairwise (· ≤ ·) → (∀ now ∈ times, t ≤ now) →
      ∀ w : Window T, admitted limit t length (hits closed (some w) times) ≤
        (limit - w.count) + limit := by
    intro times hsorted hfrom
    induction times with
    | nil => exact fun w => Nat.zero_le _
    | cons now times ih =>
      intro w
      rcases pairwise_cons.mp hsorted with ⟨-, hrest⟩
      have hnow : t ≤ now := hfrom now mem_cons_self
      rw [hits, admitted_cons]
      by_cases hclosed : closed w.start now = true
      · rw [hit_closed hclosed]
        have hopened : admitted limit t length (hits closed (some ⟨now, 1⟩) times) ≤ limit - 1 :=
          admitted_of_opened hopen hrest hnow
        split
        · rename_i hcounted
          have hlimit : 1 ≤ limit := hcounted.2.2
          omega
        · omega
      · rw [hit_open (Bool.eq_false_iff.mpr hclosed)]
        have hlater := ih hrest (fun now' hmem => hfrom now' (mem_cons_of_mem now hmem))
          ⟨w.start, w.count + 1⟩
        dsimp only at hlater
        split
        · rename_i hcounted
          have hlimit : w.count + 1 ≤ limit := hcounted.2.2
          omega
        · omega
  cases times with
  | nil => exact Nat.zero_le _
  | cons now times =>
    cases window with
    | some w => exact (hleft _ hsorted hfrom w).trans (by omega)
    | none =>
      rcases pairwise_cons.mp hsorted with ⟨-, hrest⟩
      have hopened : admitted limit t length (hits closed (some ⟨now, 1⟩) times) ≤ limit - 1 :=
        admitted_of_opened hopen hrest (hfrom now mem_cons_self)
      rw [hits, admitted_cons, hit_none]
      split
      · rename_i hcounted
        have hlimit : 1 ≤ limit := hcounted.2.2
        omega
      · omega

/-- In an interval that is as long as a window at most twice the limit is admitted. -/
theorem admitted_le (hsorted : times.Pairwise (· ≤ ·)) (window : Option (Window T)) :
    admitted limit t length (hits closed window times) ≤ 2 * limit := by
  induction times generalizing window with
  | nil => exact Nat.zero_le _
  | cons now times ih =>
    by_cases hnow : t ≤ now
    · refine admitted_from hopen hsorted (fun now' hmem => ?_) window
      rcases mem_cons.mp hmem with rfl | hmem
      · exact hnow
      · exact hnow.trans ((pairwise_cons.mp hsorted).1 now' hmem)
    · -- A hit before the interval is not counted.
      have hbefore : ¬ (t ≤ now ∧ now < t + length ∧ (hit closed window now).count ≤ limit) :=
        fun hc => hnow hc.1
      rw [hits, admitted_cons, if_neg hbefore]
      exact ih (pairwise_cons.mp hsorted).2 _

end Bound

end FixedWindow
