import Mathlib.Data.List.Range
import Mathlib.Data.Nat.ModEq
import Mathlib.Data.List.Perm.Subperm
import Mathlib.Data.List.Nodup

namespace Rucix.Data.Ring

open Function List

/-! The queue held by a circular buffer: `count` live values from position `start`
on, wrapping at the end of the buffer.
-/

variable {α : Type*} {cells : Nat → α} {capacity start count : Nat}

def contents (cells : Nat → α) (capacity start count : Nat) : List α :=
  (List.range count).map fun index => cells ((start + index) % capacity)

@[simp] theorem contents_length : (contents cells capacity start count).length = count := by
  simp [contents]

/-- Two positions of the window coincide only if their offsets do. -/
theorem position_injective (leftBound : left < capacity) (rightBound : right < capacity)
    (same : (start + left) % capacity = (start + right) % capacity) : left = right := by
  have congruent : left ≡ right [MOD capacity] := Nat.ModEq.add_left_cancel' start same
  exact Nat.ModEq.eq_of_lt_of_lt congruent leftBound rightBound

theorem contents_push (room : count < capacity) :
    contents (update cells ((start + count) % capacity) value) capacity start (count + 1) =
      contents cells capacity start count ++ [value] := by
  simp only [contents, range_succ, map_append, map_cons,
    update_self]
  congr 1
  apply map_congr_left
  intro index member
  have below : index < count := mem_range.mp member
  apply update_of_ne
  intro same
  have equal := position_injective (by omega) room same
  omega

theorem contents_pop (capacity start count : Nat) :
    contents cells capacity start (count + 1) =
      cells (start % capacity) :: contents cells capacity ((start + 1) % capacity) count := by
  simp only [contents, range_succ_eq_map, map_cons, map_map]
  congr 1
  apply map_congr_left
  intro index _
  simp only [comp_apply, Nat.mod_add_mod]
  congr 2
  omega

theorem contents_set (inside : index < count) (room : count ≤ capacity) :
    contents (update cells ((start + index) % capacity) value) capacity start count =
      (contents cells capacity start count).set index value := by
  apply ext_getElem
  · simp
  · intro other first second
    rw [contents_length] at first
    simp only [contents, getElem_map, getElem_range, getElem_set]
    by_cases here : index = other
    · subst here
      rw [update_self, if_pos rfl]
    · rw [if_neg here]
      apply update_of_ne
      intro same
      exact here (position_injective (by omega) (by omega) same).symm

/-- The cell in front of a window that does not fill the ring is not in it. -/
theorem contents_update_before (inside : start < capacity) (room : count < capacity) :
    contents (update cells start value) capacity ((start + 1) % capacity) count =
      contents cells capacity ((start + 1) % capacity) count := by
  apply map_congr_left
  intro index member
  have below : index < count := mem_range.mp member
  apply update_of_ne
  intro same
  rw [Nat.mod_add_mod, Nat.add_assoc] at same
  have shifted : (start + (1 + index)) % capacity = (start + 0) % capacity := by
    rw [same, Nat.add_zero, Nat.mod_eq_of_lt inside]
  have equal := position_injective (by omega) (by omega) shifted
  omega

theorem contents_getElem? (cells : Nat → α) (capacity start : Nat) (inside : index < count) :
    (contents cells capacity start count)[index]? = some (cells ((start + index) % capacity)) := by
  simp [contents, inside]

end Rucix.Data.Ring
