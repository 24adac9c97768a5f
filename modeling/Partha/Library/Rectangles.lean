import Mathlib.Algebra.Order.Ring.Defs
import Mathlib.Data.Nat.Cast.Order.Ring
import Mathlib.Data.Set.Lattice
import Mathlib.Order.CompletePartialOrder

/-!
# Rectangles in a Grid

Rectangles with sides along the axes, as sets of points with their borders.

One rectangle is to the left of another one, or above it, if there is a gap between them, and then
they have no point in common. Rectangles of one size that stand at multiples of a pitch which is
more than the size are in this relation as their numbers are.

## Main definitions

* `Rectangle`, `Rectangle.points`: A rectangle, and its points.
* `LeftOf`, `Above`: One rectangle comes before another one along an axis.
* `Apart`: One of the two, in one order or the other.

## Theorems

* `Apart.disjoint`: Rectangles that are apart have no point in common.
* `leftOf_columns`, `above_rows`: Rectangles at multiples of a pitch.
* `apart_cells`: Rectangles of one size in a grid.
-/

namespace Rectangles

/-- A rectangle, by its upper left corner and its size. The vertical axis points down. -/
structure Rectangle (K : Type*) where
  x : K
  y : K
  width : K
  height : K

variable {K : Type*}

section Relations

variable [LinearOrder K] [Add K]

/-- The points of a rectangle, with its border. -/
def Rectangle.points (r : Rectangle K) : Set (K × K) :=
  {p | r.x ≤ p.1 ∧ p.1 ≤ r.x + r.width ∧ r.y ≤ p.2 ∧ p.2 ≤ r.y + r.height}

/-- A rectangle ends before another one begins. -/
def LeftOf (r s : Rectangle K) : Prop :=
  r.x + r.width < s.x

def Above (r s : Rectangle K) : Prop :=
  r.y + r.height < s.y

/-- Two rectangles with a gap between them. -/
def Apart (r s : Rectangle K) : Prop :=
  LeftOf r s ∨ LeftOf s r ∨ Above r s ∨ Above s r

variable {r s : Rectangle K}

theorem Apart.symm (h : Apart r s) : Apart s r := by
  rcases h with h | h | h | h
  · exact .inr (.inl h)
  · exact .inl h
  · exact .inr (.inr (.inr h))
  · exact .inr (.inr (.inl h))

theorem LeftOf.disjoint (h : LeftOf r s) : Disjoint r.points s.points := by
  rw [Set.disjoint_left]
  rintro p ⟨-, hr, -, -⟩ ⟨hs, -, -, -⟩
  exact absurd (lt_of_le_of_lt hr h) (not_lt_of_ge hs)

theorem Above.disjoint (h : Above r s) : Disjoint r.points s.points := by
  rw [Set.disjoint_left]
  rintro p ⟨-, -, -, hr⟩ ⟨-, -, hs, -⟩
  exact absurd (lt_of_le_of_lt hr h) (not_lt_of_ge hs)

/-- Rectangles that are apart have no point in common. -/
theorem Apart.disjoint (h : Apart r s) : Disjoint r.points s.points := by
  rcases h with h | h | h | h
  · exact h.disjoint
  · exact h.disjoint.symm
  · exact h.disjoint
  · exact h.disjoint.symm

end Relations

section Grids

variable [Ring K] [LinearOrder K] [IsStrictOrderedRing K]

variable {pitch width height : K} {i j : Nat}

/-- A multiple of a pitch is at least a pitch before the next ones. -/
theorem add_lt_of_pitch {size : K} (hsize : 0 ≤ size) (hpitch : size < pitch) (start : K)
    (h : i < j) : start + i * pitch + size < start + j * pitch := by
  have hij : (i : K) + 1 ≤ j := by
    exact_mod_cast h
  have hstep : ((i : K) + 1) * pitch ≤ j * pitch :=
    mul_le_mul_of_nonneg_right hij (le_of_lt (lt_of_le_of_lt hsize hpitch))
  rw [add_mul, one_mul] at hstep
  calc start + i * pitch + size
      < start + i * pitch + pitch := add_lt_add_right hpitch _
    _ = start + (i * pitch + pitch) := add_assoc _ _ _
    _ ≤ start + j * pitch := add_le_add_right hstep start

/-- Rectangles in different columns. -/
theorem leftOf_columns (hwidth : 0 ≤ width) (hpitch : width < pitch) (start : K) (h : i < j)
    (y y' height height' width' : K) :
    LeftOf ⟨start + i * pitch, y, width, height⟩ ⟨start + j * pitch, y', width', height'⟩ :=
  add_lt_of_pitch hwidth hpitch start h

/-- Rectangles in different rows. -/
theorem above_rows (hheight : 0 ≤ height) (hpitch : height < pitch) (start : K) (h : i < j)
    (x x' width width' height' : K) :
    Above ⟨x, start + i * pitch, width, height⟩ ⟨x', start + j * pitch, width', height'⟩ :=
  add_lt_of_pitch hheight hpitch start h

/-- Rectangles of one size in a grid are apart, unless they have one place. -/
theorem apart_cells {pitch' : K} (hwidth : 0 ≤ width) (hpitch : width < pitch)
    (hheight : 0 ≤ height) (hpitch' : height < pitch') (x : K) (top : Nat → K)
    {column column' row row' : Nat} (h : (column, row) ≠ (column', row')) :
    Apart ⟨x + column * pitch, top column + row * pitch', width, height⟩
      ⟨x + column' * pitch, top column' + row' * pitch', width, height⟩ := by
  rcases Nat.lt_trichotomy column column' with hlt | rfl | hlt
  · exact .inl (leftOf_columns hwidth hpitch x hlt _ _ _ _ _)
  · have hrow : row ≠ row' := fun heq => h (by rw [heq])
    rcases Nat.lt_or_gt_of_ne hrow with hlt | hlt
    · exact .inr (.inr (.inl (above_rows hheight hpitch' _ hlt _ _ _ _ _)))
    · exact .inr (.inr (.inr (above_rows hheight hpitch' _ hlt _ _ _ _ _)))
  · exact .inr (.inl (leftOf_columns hwidth hpitch x hlt _ _ _ _ _))

/-- The place of a number in columns of some rows tells it. -/
theorem place_ne {rows : Nat} (h : i ≠ j) : (i / rows, i % rows) ≠ (j / rows, j % rows) := by
  intro heq
  refine h ?_
  rw [← Nat.div_add_mod i rows, ← Nat.div_add_mod j rows, (Prod.mk.inj heq).1,
    (Prod.mk.inj heq).2]

end Grids

end Rectangles
