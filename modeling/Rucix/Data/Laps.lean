import Mathlib.Logic.Function.Basic

namespace Rucix.Data.Laps

open Function List

/-! A ring whose cells are marked.

Every value is stored with the mark of its lap, and the marks alternate, so that a
reader who knows its lap can tell a new value from one of the lap before.
-/

variable {α : Type*} {capacity : Nat} {cells other : Nat → Bool × α} {values : List α}

/-- The mark of the lap in which the `index`-th value is stored. -/
def mark (capacity index : Nat) : Bool := decide (index / capacity % 2 = 0)

theorem mark_next_lap (index : Nat) (positive : 0 < capacity) :
    mark capacity (index + capacity) = !mark capacity index := by
  rw [mark, mark, Nat.add_div_right _ positive]
  by_cases even : index / capacity % 2 = 0
  · have odd : ¬(index / capacity + 1) % 2 = 0 := by omega
    simp [even, odd]
  · have next : (index / capacity + 1) % 2 = 0 := by omega
    simp [even, next]

/-- The last values, at most one for each cell, are in the ring, and cells that were
never used have the other mark. -/
structure Holds (capacity : Nat) (cells : Nat → Bool × α) (values : List α) : Prop where
  stored : ∀ index value, values[index]? = some value → values.length ≤ index + capacity →
    cells (index % capacity) = (mark capacity index, value)
  unused : ∀ index < capacity, values.length ≤ index → (cells index).1 = false

namespace Holds

theorem congr (holds : Holds capacity cells values) (positive : 0 < capacity)
    (same : ∀ index < capacity, other index = cells index) : Holds capacity other values where
  stored index value found recent := by
    rw [same _ (Nat.mod_lt _ positive)]
    exact holds.stored index value found recent
  unused index inside unreached := by
    rw [same index inside]
    exact holds.unused index inside unreached

theorem push (holds : Holds capacity cells values) (value : α) :
    Holds capacity (update cells (values.length % capacity) (mark capacity values.length, value))
      (values ++ [value]) where
  stored index found stored recent := by
    rw [List.length_append, List.length_singleton] at recent
    by_cases old : index < values.length
    · rw [getElem?_append_left old] at stored
      have apart : index % capacity ≠ values.length % capacity := by
        intro same
        have difference : (values.length - index) % capacity = 0 := Nat.sub_mod_eq_zero_of_mod_eq same.symm
        have small : values.length - index < capacity := by omega
        rw [Nat.mod_eq_of_lt small] at difference
        omega
      rw [update_of_ne apart]
      exact holds.stored index found stored (by omega)
    · have last : index = values.length := by
        have inside := (List.getElem?_eq_some_iff.mp stored).1
        rw [List.length_append, List.length_singleton] at inside
        omega
      subst last
      rw [getElem?_append_right (Nat.le_refl _), Nat.sub_self, getElem?_cons_zero,
        Option.some.injEq] at stored
      rw [stored, update_self]
  unused index inside unreached := by
    rw [List.length_append, List.length_singleton] at unreached
    have apart : index ≠ values.length % capacity := by
      rw [Nat.mod_eq_of_lt (by omega)]
      omega
    rw [update_of_ne apart]
    exact holds.unused index inside (by omega)

/-- The next cell to store to does not have the mark of the next value. -/
theorem next_unmarked (holds : Holds capacity cells values) (positive : 0 < capacity) :
    (cells (values.length % capacity)).1 ≠ mark capacity values.length := by
  by_cases first : values.length < capacity
  · rw [Nat.mod_eq_of_lt first, holds.unused _ first (Nat.le_refl _), mark, Nat.div_eq_of_lt first]
    decide
  · have inside : values.length - capacity < values.length := by omega
    have found := holds.stored (values.length - capacity) _ (getElem?_eq_getElem inside) (by omega)
    have lap : values.length - capacity + capacity = values.length := by omega
    have next := mark_next_lap (values.length - capacity) positive
    rw [lap] at next
    rw [Nat.mod_eq_sub_mod (Nat.le_of_not_lt first), found, next]
    simp

end Holds

end Rucix.Data.Laps
