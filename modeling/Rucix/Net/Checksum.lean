import Rucix.Net.Send

namespace Rucix.Net

open Rucix.Data Block Finset

/-! `checksum` of `icmp.c` and `ip_checksum` add the same words. -/

variable {offset length : Nat} {state : RxState}

theorem wordSum_add_two :
    wordSum bytes offset (length + 2) = bytes.get16 offset + wordSum bytes (offset + 2) length := by
  have last : offset + (length + 2 - 1) = offset + 2 + (length - 1) ∨ length % 2 = 0 := by omega
  have words : ∑ index ∈ range ((length + 2) / 2), bytes.get16 (offset + 2 * index) =
      bytes.get16 offset + ∑ index ∈ range (length / 2), bytes.get16 (offset + 2 + 2 * index) := by
    rw [Nat.add_div_right _ (by decide), sum_range_succ', Nat.add_comm]
    simp only [Nat.mul_add, Nat.add_comm (2 * _), ← Nat.add_assoc, Nat.mul_zero, Nat.add_zero, Nat.mul_one]
  rw [wordSum, wordSum, words, Nat.add_mod_right, Nat.add_assoc]
  split
  · rw [last.resolve_right (by omega)]
  · rfl

theorem sumWords_run (inside : offset + count ≤ state.skb.tail) (small : sum < 2 ^ 32) :
    (sumWords offset count sum).run state = .ok (wrap 32 (sum + wordSum state.skb.bytes offset count), state) := by
  induction offset, count, sum using sumWords.induct with
  | case1 offset sum =>
    simp [wordSum, wrap_of_lt small]
    rfl
  | case2 offset sum =>
    have read : (read8 offset).run state = _ := readField_run inside
    simp [sumWords, wordSum, read]
  | case3 offset count sum ih =>
    have read : (read16 offset).run state = _ := readField_run (by omega)
    have rest := ih (state.skb.bytes.get16 offset) (by omega) (wrap_lt 32 _)
    rw [sumWords, StateT.run_bind, read, wordSum_add_two, ← Nat.add_assoc]
    exact rest.trans (congrArg (fun sum => Except.ok (sum, state)) (Nat.mod_add_mod ..))

/-- Both checksums are the same number, the carries are gone after three turns, and the
number verifies when it is stored in a field that was cleared for it. -/
theorem checksums_agree (short : length ≤ 131072) (inside : offset + length ≤ state.skb.tail) :
    (checksum offset length).run state = .ok (ipChecksum state.skb.bytes offset length, state) ∧
    foldCarries 3 (addWords state.skb.bytes offset length) < 2 ^ 16 ∧
    ∀ place, 2 * place + 2 ≤ length → ∀ cleared, cleared = state.skb.bytes.put16 (offset + 2 * place) 0 →
      ipChecksum (cleared.put16 (offset + 2 * place) (ipChecksum cleared offset length)) offset length = 0 := by
  refine ⟨?_, ?_, fun place within cleared isCleared => ipChecksum_stored within short ?_⟩
  · have sum : (sumWords offset length 0).run state = _ := sumWords_run inside (by decide)
    rw [Nat.zero_add, ← addWords_eq] at sum
    rw [checksum, StateT.run_bind, Int.toNat_natCast, sum]
    rfl
  · rw [addWords_eq]
    exact (foldCarries_spec (wrap_lt 32 _)).1
  · simp [isCleared, get16_put16]

theorem checksums_agree_odd :
    (checksum 0 5).run { skb := .received [1, 2, 7, 7, 9], dev := loopbackDevice } =
      .ok (ipChecksum (frameBytes [1, 2, 7, 7, 9]) 0 5, { skb := .received [1, 2, 7, 7, 9], dev := loopbackDevice }) :=
  (@checksums_agree 0 5 { skb := .received [1, 2, 7, 7, 9], dev := loopbackDevice } (by decide) (by decide)).1

end Rucix.Net
