import Mathlib.Algebra.Order.BigOperators.Group.Finset
import Mathlib.Tactic.Ring

namespace Rucix.Data

open Function

/-! Positional digits, and arrays of optional slots with their occupancy. -/

def digit (base : Nat) [NeZero base] (position value : Nat) : Fin base :=
  Fin.ofNat base (value / base ^ position)

section Digits

variable {base : Nat} [NeZero base] {position left right value : Nat}

/-- Two numbers agree below `position + 1` when their digit there and
everything below agree. -/
theorem mod_pow_succ_eq_iff : left % base ^ (position + 1) = right % base ^ (position + 1) ↔
      digit base position left = digit base position right ∧
        left % base ^ position = right % base ^ position := by
  have positive : 0 < base ^ position := Nat.pow_pos (NeZero.pos base)
  simp only [digit, Fin.ext_iff, Fin.val_ofNat, Nat.mod_pow_succ]
  constructor
  · intro same
    have low : left % base ^ position = right % base ^ position := by
      have reduced := congrArg (· % base ^ position) same
      simpa [Nat.add_mul_mod_self_left] using reduced
    refine ⟨?_, low⟩
    rw [low] at same
    exact Nat.eq_of_mul_eq_mul_left positive (Nat.add_left_cancel same)
  · rintro ⟨high, low⟩
    rw [high, low]

theorem digit_eq_zero_iff (bound : value < base ^ (position + 1)) :
    digit base position value = 0 ↔ value < base ^ position := by
  have positive : 0 < base ^ position := Nat.pow_pos (NeZero.pos base)
  have quotient : value / base ^ position < base := by
    rw [Nat.div_lt_iff_lt_mul positive, Nat.mul_comm]
    exact bound
  have zero : ((0 : Fin base) : Nat) = 0 := rfl
  rw [digit, Fin.ext_iff, Fin.val_ofNat, Nat.mod_eq_of_lt quotient, zero,
    Nat.div_eq_zero_iff_lt positive]

/-- Putting a digit in front of a number with `position` digits. -/
theorem digit_mul_add (bound : low < base ^ position) :
    digit base position (slot.val * base ^ position + low) = slot := by
  have positive : 0 < base ^ position := Nat.pow_pos (NeZero.pos base)
  apply Fin.ext
  rw [digit, Fin.val_ofNat, Nat.mul_comm, Nat.mul_add_div positive, Nat.div_eq_of_lt bound, Nat.add_zero,
    Nat.mod_eq_of_lt slot.isLt]

omit [NeZero base] in
theorem mul_add_lt_pow (slot : Fin base) (bound : low < base ^ position) :
    slot.val * base ^ position + low < base ^ (position + 1) := by
  have top : (slot.val + 1) * base ^ position ≤ base * base ^ position :=
    Nat.mul_le_mul_right _ slot.isLt
  rw [Nat.pow_succ, Nat.mul_comm _ base]
  rw [Nat.add_mul, Nat.one_mul] at top
  omega

end Digits

section Slots

variable {n : Nat} {β : Type*} {slots : Fin n → Option β} {index : Fin n} {value : β}

def occupied (slots : Fin n → Option β) : Nat :=
  (Finset.univ.filter fun index => (slots index).isSome).card

@[simp]
theorem occupied_empty : occupied (fun _ => none : Fin n → Option β) = 0 := by
  simp [occupied]

theorem occupied_eq_zero (unused : occupied slots = 0) (index : Fin n) : slots index = none := by
  have empty := Finset.card_eq_zero.mp unused
  have absent : index ∉ Finset.univ.filter fun index => (slots index).isSome := by
    rw [empty]
    exact Finset.notMem_empty index
  simpa using absent

theorem occupied_fill (vacant : slots index = none) (value : β) :
    occupied (update slots index (some value)) = occupied slots + 1 := by
  have absent : index ∉ Finset.univ.filter fun index => (slots index).isSome := by simp [vacant]
  rw [occupied, occupied, ← Finset.card_insert_of_notMem absent]
  congr 1
  ext other
  by_cases same : other = index <;> simp [same]

theorem occupied_single (index : Fin n) (value : β) : occupied (update (fun _ => none) index (some value)) = 1 := by
  rw [occupied_fill rfl, occupied_empty]

theorem occupied_replace (stored : slots index = some value) (other : β) :
    occupied (update slots index (some other)) = occupied slots := by
  rw [occupied]
  congr 1
  ext slot
  by_cases same : slot = index <;> simp [same, stored]

theorem occupied_release (stored : slots index = some value) :
    occupied (update slots index none) + 1 = occupied slots := by
  have vacant : update slots index none index = none := update_self ..
  have refilled := occupied_fill vacant value
  rw [update_idem, ← stored, update_eq_self] at refilled
  exact refilled.symm

theorem eq_none_of_occupied_eq_one (one : occupied slots = 1) (stored : slots index = some value)
    (different : other ≠ index) : slots other = none := by
  have released := occupied_release stored
  have rest := occupied_eq_zero (by omega : occupied (update slots index none) = 0) other
  rwa [update_of_ne different] at rest

theorem occupied_pos (stored : slots index = some value) : 0 < occupied slots := by
  have released := occupied_release stored
  omega

theorem exists_of_occupied_pos (used : 0 < occupied slots) : ∃ index value, slots index = some value := by
  obtain ⟨index, member⟩ := Finset.card_pos.mp used
  obtain ⟨value, stored⟩ := Option.isSome_iff_exists.mp (Finset.mem_filter.mp member).2
  exact ⟨index, value, stored⟩

theorem forall_of_update {holds : β → Prop} {stored : Option β}
    (others : ∀ other value, slots other = some value → holds value) (new : ∀ value ∈ stored, holds value)
    (other : Fin n) (value : β) (found : update slots index stored other = some value) : holds value := by
  by_cases same : other = index
  · subst same
    rw [update_self] at found
    exact new value found
  · rw [update_of_ne same] at found
    exact others other value found

/-- Unless `index` is the only slot in use, another one is. -/
theorem exists_other_of_occupied (used : 0 < occupied slots) (more : occupied slots ≠ 1 ∨ slots index = none) :
    ∃ other value, other ≠ index ∧ slots other = some value := by
  cases stored : slots index with
  | none =>
    obtain ⟨other, value, found⟩ := exists_of_occupied_pos used
    refine ⟨other, value, ?_, found⟩
    rintro rfl
    cases found.symm.trans stored
  | some first =>
    have released := occupied_release stored
    have several : occupied slots ≠ 1 := more.resolve_right (by simp [stored])
    obtain ⟨other, value, found⟩ :=
      exists_of_occupied_pos (by omega : 0 < occupied (update slots index none))
    have different : other ≠ index := by
      rintro rfl
      simp at found
    rw [update_of_ne different] at found
    exact ⟨other, value, different, found⟩

end Slots

end Rucix.Data
