import Mathlib.Logic.Basic

/-!
# Partial Updates

An update that writes only what it changes.

A session loads a row, changes some of its columns, and writes the columns whose
value is not the one that it loaded. The others keep what is stored by then. If
the row was written in between, then what is stored afterwards may be neither the
row of the session nor the row that it found: a column of the one may stand beside
a column of the other.

For two columns that belong together there is a condition that prevents it: if one
of them is written and the other is left alone, then the other is still stored as
it was loaded.

## Main definitions

* `flush`: A column after the update.
* `Undivided`: When two columns come from one row.

## Theorems

* `flush_pair`: Then they are those of the session, or those that were stored.
-/

namespace Flush

variable {α β : Type*} [DecidableEq α] [DecidableEq β]

/-- A column after an update that writes it only if its value has changed. -/
def flush (loaded new stored : α) : α :=
  if new = loaded then stored else new

variable {loaded new stored : α}

theorem flush_unchanged (h : new = loaded) : flush loaded new stored = stored :=
  if_pos h

theorem flush_changed (h : new ≠ loaded) : flush loaded new stored = new :=
  if_neg h

/-- Without a write in between, an update stores what it says. -/
theorem flush_current (h : stored = loaded) : flush loaded new stored = new := by
  by_cases hnew : new = loaded
  · rw [flush_unchanged hnew, h, hnew]
  · exact flush_changed hnew

/-- Of two columns, one that is left alone while the other is written is stored as it was
    loaded. -/
structure Undivided (loaded new stored : α) (loaded' new' stored' : β) : Prop where
  left : new = loaded → new' ≠ loaded' → stored = loaded
  right : new' = loaded' → new ≠ loaded → stored' = loaded'

/-- Two columns are those of the session, or those that were stored. -/
theorem flush_pair {loaded' new' stored' : β}
    (h : Undivided loaded new stored loaded' new' stored') :
    flush loaded new stored = new ∧ flush loaded' new' stored' = new' ∨
      flush loaded new stored = stored ∧ flush loaded' new' stored' = stored' := by
  by_cases hl : new = loaded
  · by_cases hr : new' = loaded'
    · exact .inr ⟨flush_unchanged hl, flush_unchanged hr⟩
    · exact .inl ⟨flush_current (h.left hl hr), flush_changed hr⟩
  · by_cases hr : new' = loaded'
    · exact .inl ⟨flush_changed hl, flush_current (h.right hr hl)⟩
    · exact .inl ⟨flush_changed hl, flush_changed hr⟩

end Flush
