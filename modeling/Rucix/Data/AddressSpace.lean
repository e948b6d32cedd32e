import Mathlib.Tactic.Ring

namespace Rucix.Data

/-! Bytes at 64-bit addresses, which wrap around, and little-endian words in them. -/

abbrev Word := BitVec 64

abbrev AddressSpace := Word → UInt8

def wordBytes (word : Word) : List UInt8 :=
  (List.range 8).map fun index => UInt8.ofNat (word.toNat / 2 ^ (8 * index))

def wordOf (bytes : List UInt8) : Word :=
  BitVec.ofNat 64 (bytes.foldr (fun byte value => byte.toNat + 2 ^ 8 * value) 0)

namespace AddressSpace

variable {space other : AddressSpace} {address position : Word} {bytes : List UInt8}
  {index count : Nat} {words : List Word}

def store (space : AddressSpace) (address : Word) (bytes : List UInt8) : AddressSpace := fun position =>
  (bytes[(position - address).toNat]?).getD (space position)

def load (space : AddressSpace) (address : Word) : Nat → List UInt8
  | 0 => []
  | count + 1 => space address :: space.load (address + 1) count

def loadWord (space : AddressSpace) (address : Word) : Word := wordOf (space.load address 8)

def loadWords (space : AddressSpace) (address : Word) : Nat → List Word
  | 0 => []
  | count + 1 => space.loadWord address :: space.loadWords (address + 8) count

theorem store_outside (outside : bytes.length ≤ (position - address).toNat) :
    space.store address bytes position = space position := by
  rw [store, List.getElem?_eq_none outside, Option.getD_none]

theorem store_inside (inside : (position - address).toNat < bytes.length) :
    space.store address bytes position = bytes[(position - address).toNat] := by
  rw [store, List.getElem?_eq_getElem inside, Option.getD_some]

theorem store_append (small : first.length + second.length ≤ 2 ^ 64) :
    (space.store address first).store (address + BitVec.ofNat 64 first.length) second =
      space.store address (first ++ second) := by
  funext position
  by_cases early : (position - address).toNat < first.length
  · rw [store_outside (by bv_omega), store, store, List.getElem?_append_left early]
  · have distance : (position - (address + BitVec.ofNat 64 first.length)).toNat =
        (position - address).toNat - first.length := by bv_omega
    rw [store, distance, store_outside (Nat.le_of_not_lt early), store,
      List.getElem?_append_right (Nat.le_of_not_lt early)]

theorem load_length : (space.load address count).length = count := by
  induction count generalizing address with
  | zero => rfl
  | succ count ih => rw [load, List.length_cons, ih]

theorem add_one_ofNat :
    address + 1 + BitVec.ofNat 64 index = address + BitVec.ofNat 64 (index + 1) := by
  rw [BitVec.ofNat_add, BitVec.add_assoc, BitVec.add_comm (1 : Word)]
  rfl

theorem toNat_ofNat_sub (small : index < 2 ^ 64) :
    (address + BitVec.ofNat 64 index - address).toNat = index := by
  rw [BitVec.add_comm, BitVec.add_sub_cancel]
  exact (BitVec.toNat_ofNat index 64).trans (Nat.mod_eq_of_lt small)

theorem load_congr (same : ∀ index, index < count →
      other (address + BitVec.ofNat 64 index) = space (address + BitVec.ofNat 64 index)) :
    other.load address count = space.load address count := by
  induction count generalizing address with
  | zero => rfl
  | succ count ih =>
    have first := same 0 (by omega)
    rw [BitVec.add_zero] at first
    rw [load, load, first, ih]
    intro index small
    rw [add_one_ofNat]
    exact same (index + 1) (by omega)

theorem load_add : space.load address (first + second) =
      space.load address first ++ space.load (address + BitVec.ofNat 64 first) second := by
  induction first generalizing address with
  | zero => simp [load]
  | succ first ih =>
    rw [Nat.succ_add, load, load, ih, List.cons_append, add_one_ofNat]

theorem getElem_load (inside : index < (space.load address count).length) :
    (space.load address count)[index] = space (address + BitVec.ofNat 64 index) := by
  induction count generalizing address index with
  | zero => simp [load] at inside
  | succ count ih =>
    cases index with
    | zero => simp [load]
    | succ index =>
      simp only [load, List.getElem_cons_succ]
      rw [ih, add_one_ofNat]

theorem load_store (space : AddressSpace) (address : Word) (small : bytes.length ≤ 2 ^ 64) :
    (space.store address bytes).load address bytes.length = bytes := by
  apply List.ext_getElem (load_length ..)
  intro index inside bound
  have distance : (address + BitVec.ofNat 64 index - address).toNat = index :=
    toNat_ofNat_sub (by omega)
  rw [getElem_load, store_inside (by omega)]
  congr 1

theorem load_store_outside (outside : ∀ index, index < count →
      bytes.length ≤ (position + BitVec.ofNat 64 index - address).toNat) :
    (space.store address bytes).load position count = space.load position count :=
  load_congr fun index inside => store_outside (outside index inside)

end AddressSpace

theorem wordBytes_length : (wordBytes word).length = 8 := rfl

theorem wordOf_wordBytes : wordOf (wordBytes word) = word := by
  apply BitVec.eq_of_toNat_eq
  simp only [wordOf, wordBytes, List.range_succ]
  simp
  omega

namespace AddressSpace

theorem loadWord_store (space : AddressSpace) :
    (space.store address (wordBytes word)).loadWord address = word := by
  have small : (wordBytes word).length ≤ 2 ^ 64 := by
    rw [wordBytes_length]
    decide
  have loaded := load_store space address small
  rw [wordBytes_length] at loaded
  rw [loadWord, loaded, wordOf_wordBytes]

theorem loadWords_of_load {space : AddressSpace} {address : Word} {words : List Word}
    (loaded : space.load address (8 * words.length) = words.flatMap wordBytes) :
    space.loadWords address words.length = words := by
  induction words generalizing address with
  | nil => rfl
  | cons word words ih =>
    rw [List.length_cons, Nat.mul_succ, Nat.add_comm, load_add] at loaded
    obtain ⟨first, rest⟩ := List.append_inj loaded (load_length ..)
    rw [List.length_cons, loadWords, loadWord, first, wordOf_wordBytes]
    exact congrArg _ (ih rest)

end AddressSpace

end Rucix.Data
