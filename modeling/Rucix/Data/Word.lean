import Mathlib.Data.Nat.Bitwise

namespace Rucix.Data

/-! Unsigned machine words as natural numbers below a power of two. -/

variable {width left right value : Nat}

def wrap (width value : Nat) : Nat := value % 2 ^ width

def wrapSub (width left right : Nat) : Nat :=
  (left + (2 ^ width - right % 2 ^ width)) % 2 ^ width

theorem wrap_lt (width value : Nat) : wrap width value < 2 ^ width :=
  Nat.mod_lt _ (Nat.two_pow_pos width)

theorem wrap_of_lt (bound : value < 2 ^ width) : wrap width value = value :=
  Nat.mod_eq_of_lt bound

theorem wrapSub_of_le (order : right ≤ left) (bound : left < 2 ^ width) :
    wrapSub width left right = left - right := by
  have small : right % 2 ^ width = right := Nat.mod_eq_of_lt (by omega)
  have shifted : left + (2 ^ width - right) = left - right + 2 ^ width := by omega
  rw [wrapSub, small, shifted, Nat.add_mod_right, Nat.mod_eq_of_lt (by omega)]

theorem testBit_low_mask : (2 ^ width - 1).testBit bit = decide (bit < width) :=
  Nat.testBit_two_pow_sub_one ..

/-- Masking with a block of ones keeps exactly the digits under the block. -/
theorem land_block_mask (value low bits : Nat) :
    value &&& ((2 ^ bits - 1) <<< low) = value / 2 ^ low % 2 ^ bits * 2 ^ low := by
  rw [← Nat.shiftRight_eq_div_pow, ← Nat.shiftLeft_eq]
  apply Nat.eq_of_testBit_eq
  intro bit
  by_cases reached : low ≤ bit
  · simp [reached, Bool.and_comm]
  · simp [reached]

end Rucix.Data
