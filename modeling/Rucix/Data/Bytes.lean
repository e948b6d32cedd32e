import Mathlib.Data.List.Basic
import Mathlib.Tactic.Ring

namespace Rucix.Data

/-! Blocks of bytes and little-endian numbers in them. -/

abbrev Block := Nat → UInt8

namespace Block

variable {block : Block} {offset position : Nat} {bytes : List UInt8}

def zero : Block := fun _ => 0

def put (block : Block) (offset : Nat) (bytes : List UInt8) : Block := fun position =>
  if offset ≤ position then (bytes[position - offset]?).getD (block position) else block position

def copy (block source : Block) (count : Nat) : Block := fun position =>
  if position < count then source position else block position

def get16 (block : Block) (offset : Nat) : Nat :=
  (block offset).toNat + 2 ^ 8 * (block (offset + 1)).toNat

def get32 (block : Block) (offset : Nat) : Nat :=
  block.get16 offset + 2 ^ 16 * block.get16 (offset + 2)

def bytes16 (value : Nat) : List UInt8 := [UInt8.ofNat value, UInt8.ofNat (value / 2 ^ 8)]

def bytes32 (value : Nat) : List UInt8 := bytes16 value ++ bytes16 (value / 2 ^ 16)

def put16 (block : Block) (offset value : Nat) : Block := block.put offset (bytes16 value)

def put32 (block : Block) (offset value : Nat) : Block := block.put offset (bytes32 value)

theorem put_outside (outside : position < offset ∨ offset + bytes.length ≤ position) :
    block.put offset bytes position = block position := by
  simp only [put]
  split
  · have missing : bytes[position - offset]? = none := List.getElem?_eq_none (by omega)
    rw [missing, Option.getD_none]
  · rfl

theorem put_inside {index : Nat} (inside : index < bytes.length) :
    block.put offset bytes (offset + index) = bytes[index] := by
  simp only [put, Nat.le_add_right, if_true, Nat.add_sub_cancel_left]
  rw [List.getElem?_eq_getElem inside, Option.getD_some]

@[simp]
theorem put_nil : block.put offset [] = block :=
  funext fun _ => put_outside (by simp only [List.length_nil]; omega)

theorem put_append :
    (block.put offset first).put (offset + first.length) second =
      block.put offset (first ++ second) := by
  funext position
  simp only [put]
  by_cases late : offset + first.length ≤ position
  · have early : offset ≤ position := by omega
    have shift : position - offset - first.length = position - (offset + first.length) := by omega
    have missing : first[position - offset]? = none := List.getElem?_eq_none (by omega)
    rw [if_pos late, if_pos early, if_pos early, List.getElem?_append_right (by omega), shift, missing,
      Option.getD_none]
  · rw [if_neg late]
    by_cases early : offset ≤ position
    · rw [if_pos early, if_pos early, List.getElem?_append_left (by omega)]
    · rw [if_neg early, if_neg early]

def puts (block : Block) (copies : List (Nat × List UInt8)) : Block :=
  copies.foldl (fun block copy => block.put copy.1 copy.2) block

theorem puts_outside {copies : List (Nat × List UInt8)}
    (outside : ∀ copy ∈ copies, position < copy.1 ∨ copy.1 + copy.2.length ≤ position) :
    block.puts copies position = block position := by
  induction copies generalizing block with
  | nil => rfl
  | cons copy copies ih =>
    have rest := @ih (block.put copy.1 copy.2) fun other member => outside other (.tail _ member)
    exact rest.trans (put_outside (outside copy (.head _)))

theorem get16_congr {other : Block} (low : other offset = block offset)
    (high : other (offset + 1) = block (offset + 1)) : other.get16 offset = block.get16 offset := by
  rw [get16, get16, low, high]

theorem get32_congr {other : Block} (same : ∀ index, index < 4 → other (offset + index) = block (offset + index)) :
    other.get32 offset = block.get32 offset := by
  have low := get16_congr (same 0 (by omega)) (same 1 (by omega))
  have high := get16_congr (same 2 (by omega)) (same 3 (by omega))
  simp only [Nat.add_zero] at low
  rw [get32, get32, low, high]

theorem get16_put_outside (outside : position + 2 ≤ offset ∨ offset + bytes.length ≤ position) :
    (block.put offset bytes).get16 position = block.get16 position :=
  get16_congr (put_outside (by omega)) (put_outside (by omega))

theorem get32_put_outside (outside : position + 4 ≤ offset ∨ offset + bytes.length ≤ position) :
    (block.put offset bytes).get32 position = block.get32 position :=
  get32_congr fun index small => put_outside (by omega)

theorem get16_lt : block.get16 offset < 2 ^ 16 := by
  have low := (block offset).toNat_lt
  have high := (block (offset + 1)).toNat_lt
  rw [get16]
  omega

theorem get32_lt : block.get32 offset < 2 ^ 32 := by
  have low : block.get16 offset < 2 ^ 16 := get16_lt
  have high : block.get16 (offset + 2) < 2 ^ 16 := get16_lt
  rw [get32]
  omega

theorem bytes16_length : (bytes16 value).length = 2 := rfl

theorem get16_put16 (value : Nat) : (block.put16 offset value).get16 offset = value % 2 ^ 16 := by
  have low : block.put16 offset value (offset + 0) = _ := put_inside (by simp [bytes16])
  have high : block.put16 offset value (offset + 1) = _ := put_inside (by simp [bytes16])
  simp only [Nat.add_zero] at low
  rw [get16, low, high]
  simp only [bytes16, List.getElem_cons_zero, List.getElem_cons_succ, UInt8.toNat_ofNat']
  omega

theorem bytes32_length : (bytes32 value).length = 4 := rfl

theorem bytes32_getElem (inside : index < (bytes32 value).length) :
    (bytes32 value)[index] = UInt8.ofNat (value / 2 ^ (8 * index)) := by
  rw [bytes32_length] at inside
  rcases index with _ | _ | _ | _ | index
  · simp [bytes32, bytes16]
  · simp [bytes32, bytes16]
  · simp [bytes32, bytes16]
  · simp [bytes32, bytes16, Nat.div_div_eq_div_mul]
  · omega

theorem put32_byte (inside : index < 4) :
    block.put32 offset value (offset + index) = UInt8.ofNat (value / 2 ^ (8 * index)) := by
  rw [← bytes32_length] at inside
  rw [put32, put_inside inside, bytes32_getElem]

theorem get32_put32 : (block.put32 offset value).get32 offset = value % 2 ^ 32 := by
  have first : block.put32 offset value (offset + 0) = _ := put32_byte (by omega)
  rw [Nat.add_zero] at first
  rw [get32, get16, get16, first, put32_byte (by omega), put32_byte (by omega),
    show offset + 2 + 1 = offset + 3 from rfl, put32_byte (by omega)]
  simp only [UInt8.toNat_ofNat']
  omega

end Block

end Rucix.Data
