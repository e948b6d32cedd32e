import Mathlib.Data.List.Induction
import Rucix.Data.Bytes

namespace Rucix.Data

/-! Writes to a byte sequence, in the order in which they are made. -/

structure Write where
  offset : Nat
  bytes : List UInt8
deriving DecidableEq

variable {write : Write} {writes : List Write} {position : Nat} {byte : UInt8} {block : Block}

def Write.finish (write : Write) : Nat := write.offset + write.bytes.length

def Write.byteAt (write : Write) (position : Nat) : Option UInt8 :=
  if write.offset ≤ position then write.bytes[position - write.offset]? else none

def lastWritten (writes : List Write) (position : Nat) : Option UInt8 :=
  writes.foldl (fun found write => (write.byteAt position).or found) none

def furthest (writes : List Write) : Nat :=
  writes.foldl (fun size write => max size write.finish) 0

@[simp]
theorem lastWritten_snoc : lastWritten (writes ++ [write]) position =
      (write.byteAt position).or (lastWritten writes position) := by
  rw [lastWritten, List.foldl_append]
  rfl

@[simp]
theorem furthest_snoc : furthest (writes ++ [write]) = max (furthest writes) write.finish := by
  rw [furthest, List.foldl_append]
  rfl

theorem Write.byteAt_none (outside : position < write.offset ∨ write.finish ≤ position) :
    write.byteAt position = none := by
  simp only [Write.byteAt, Write.finish] at *
  split
  · exact List.getElem?_eq_none (by omega)
  · rfl

theorem Write.lt_finish (stored : write.byteAt position = some byte) : position < write.finish := by
  by_contra beyond
  rw [Write.byteAt_none (.inr (by omega))] at stored
  cases stored

theorem Write.put_apply (write : Write) :
    block.put write.offset write.bytes position = (write.byteAt position).getD (block position) := by
  simp only [Block.put, Write.byteAt]
  split <;> rfl

theorem lt_furthest (found : lastWritten writes position = some byte) : position < furthest writes := by
  induction writes using List.reverseRecOn with
  | nil => cases found
  | append_singleton writes write ih =>
    rw [lastWritten_snoc, Option.or_eq_some_iff] at found
    rw [furthest_snoc]
    rcases found with new | ⟨_, old⟩
    · have := Write.lt_finish new
      omega
    · have := ih old
      omega

end Rucix.Data
