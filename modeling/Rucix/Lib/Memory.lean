import Rucix.Data.AddressSpace

namespace Rucix.Lib

open Rucix.Data AddressSpace

/-! `memset` and `memcpy` of `kernel/lib/string.c`: bytes up to an aligned address, words,
and the bytes that are left.
-/

/-- The pointers of the loops, and the memory. -/
structure Cursor where
  dest : Word
  src : Word
  memory : AddressSpace

/-- The bytes that a pass stores, given the memory and the source pointer. -/
abbrev Fetch := AddressSpace → Word → (count : Nat) → List UInt8

def Cursor.advance (cursor : Cursor) (fetch : Fetch) (count : Nat) : Cursor where
  dest := cursor.dest + BitVec.ofNat 64 count
  src := cursor.src + BitVec.ofNat 64 count
  memory := cursor.memory.store cursor.dest (fetch cursor.memory cursor.src count)

/-- A loop over bytes: what is left of `num`, and the pointers behind it. -/
def byteLoop (stop : Word → Bool) (fetch : Fetch) : (num : Nat) → Cursor → Nat × Cursor
  | 0, cursor => (0, cursor)
  | num + 1, cursor =>
    if stop cursor.dest then (num + 1, cursor)
    else byteLoop stop fetch num (cursor.advance fetch 1)

def wordLoop (fetch : Fetch) : (num : Nat) → Cursor → Nat × Cursor
  | num + 8, cursor => wordLoop fetch num (cursor.advance fetch 8)
  | num, cursor => (num, cursor)

def aligned (address : Word) : Bool := address &&& 7 = 0

def threeLoops (fetch : Fetch) (num : Nat) (cursor : Cursor) : AddressSpace :=
  let (num, cursor) := byteLoop aligned fetch num cursor
  let (num, cursor) := wordLoop fetch num cursor
  (byteLoop (fun _ => false) fetch num cursor).2.memory

def val64 (byte : UInt8) : Word :=
  let value := BitVec.ofNat 64 byte.toNat
  let value := value ||| value <<< 8
  let value := value ||| value <<< 16
  value ||| value <<< 32

/-- Each of the two returns its first argument, and the memory changes. -/
def memset (memory : AddressSpace) (ptr : Word) (value : Int) (num : Word) : Word × AddressSpace :=
  let byte := UInt8.ofInt value
  let fetch : Fetch := fun _ _ count => if count = 1 then [byte] else wordBytes (val64 byte)
  (ptr, threeLoops fetch num.toNat ⟨ptr, ptr, memory⟩)

def memcpy (memory : AddressSpace) (dest src num : Word) : Word × AddressSpace :=
  if num.toNat < 8 then (dest, (byteLoop (fun _ => false) load num.toNat ⟨dest, src, memory⟩).2.memory)
  else (dest, threeLoops load num.toNat ⟨dest, src, memory⟩)

section

variable {memory : AddressSpace} {dest src : Word} {content : List UInt8} {fetch : Fetch}

/-- The loops after `done` bytes of `content`. -/
def progress (memory : AddressSpace) (dest src : Word) (content : List UInt8) (done : Nat) : Cursor :=
  ⟨dest + BitVec.ofNat 64 done, src + BitVec.ofNat 64 done, memory.store dest (content.take done)⟩

theorem progress_zero : progress memory dest src content 0 = ⟨dest, src, memory⟩ := by
  simp [progress]
  rfl

variable (small : content.length ≤ 2 ^ 64)
  (fetched : ∀ done count, done + count ≤ content.length → count = 1 ∨ count = 8 →
    fetch (memory.store dest (content.take done)) (src + BitVec.ofNat 64 done) count =
      (content.drop done).take count)
include small fetched

theorem progress_advance (width : count = 1 ∨ count = 8) (inside : done + count ≤ content.length) :
    (progress memory dest src content done).advance fetch count =
      progress memory dest src content (done + count) := by
  have joined : (memory.store dest (content.take done)).store
      (dest + BitVec.ofNat 64 (content.take done).length) ((content.drop done).take count) = _ :=
    store_append (by simp; omega)
  rw [List.length_take_of_le (by omega), ← List.take_add] at joined
  simp only [progress, Cursor.advance, fetched done count inside width, joined, BitVec.add_assoc, BitVec.ofNat_add]

theorem byteLoop_progress (stop : Word → Bool) (sum : done + num = content.length) :
    ∃ rest later, byteLoop stop fetch num (progress memory dest src content done) =
      (rest, progress memory dest src content later) ∧ later + rest = content.length ∧
        ((∀ address, stop address = false) → rest = 0) := by
  induction num generalizing done with
  | zero => exact ⟨0, done, rfl, sum, fun _ => rfl⟩
  | succ num ih =>
    rw [byteLoop]
    split
    · next stopped => exact ⟨num + 1, done, rfl, sum, fun never => by simp [never] at stopped⟩
    · rw [progress_advance small fetched (.inl rfl) (by omega)]
      exact ih (by omega)

theorem wordLoop_progress (sum : done + num = content.length) :
    ∃ rest later, wordLoop fetch num (progress memory dest src content done) =
      (rest, progress memory dest src content later) ∧ later + rest = content.length := by
  induction num using Nat.strongRecOn generalizing done with
  | ind num ih =>
    rw [wordLoop.eq_def]
    split
    · next rest =>
      rw [progress_advance small fetched (.inr rfl) (by omega)]
      exact ih rest (by omega) (by omega)
    · exact ⟨_, done, rfl, sum⟩

theorem bytes_stored (sum : done + num = content.length) :
    (byteLoop (fun _ => false) fetch num (progress memory dest src content done)).2.memory =
      memory.store dest content := by
  obtain ⟨rest, later, ended, sum, none⟩ := byteLoop_progress small fetched (fun _ => false) sum
  have all : content.length ≤ later := by
    have := none fun _ => rfl
    omega
  rw [ended, progress, List.take_of_length_le all]

theorem threeLoops_stored (length : content.length = num) :
    threeLoops fetch num ⟨dest, src, memory⟩ = memory.store dest content := by
  obtain ⟨num, done, first, sum, -⟩ := byteLoop_progress small fetched aligned ((Nat.zero_add _).trans length.symm)
  obtain ⟨rest, later, second, sum⟩ := wordLoop_progress small fetched sum
  rw [progress_zero] at first
  simp only [threeLoops, first, second]
  exact bytes_stored small fetched sum

end

theorem wordBytes_val64 (byte : UInt8) : wordBytes (val64 byte) = List.replicate 8 byte := by
  have every : ∀ value : BitVec 8, wordBytes (val64 ⟨value⟩) = List.replicate 8 ⟨value⟩ := by decide +kernel
  exact every byte.toBitVec

/-- `memset` stores the low byte of its value as often as it is asked to, and `memcpy`
stores the bytes of the source, when the two ranges are apart. -/
theorem memory_routines_exact (memory : AddressSpace) :
    (∀ ptr value num, memset memory ptr value num =
      (ptr, memory.store ptr (List.replicate num.toNat (UInt8.ofInt value)))) ∧
    ∀ dest src num : Word, (∀ first second : Word, first.toNat < num.toNat → second.toNat < num.toNat →
        src + first ≠ dest + second) →
      memcpy memory dest src num = (dest, memory.store dest (memory.load src num.toNat)) := by
  constructor
  · intro ptr value num
    refine congrArg (Prod.mk ptr) (threeLoops_stored (by simp; omega) ?_ List.length_replicate)
    intro done count inside width
    rw [List.length_replicate] at inside
    rw [List.drop_replicate, List.take_replicate, Nat.min_eq_left (by omega)]
    rcases width with rfl | rfl
    · rfl
    · exact wordBytes_val64 _
  · intro dest src num apart
    have small : (memory.load src num.toNat).length ≤ 2 ^ 64 := by
      rw [load_length]
      omega
    have fetched : ∀ done count, done + count ≤ (memory.load src num.toNat).length → count = 1 ∨ count = 8 →
        load (memory.store dest ((memory.load src num.toNat).take done)) (src + BitVec.ofNat 64 done) count =
          ((memory.load src num.toNat).drop done).take count := by
      intro done count inside _
      rw [load_length] at inside
      obtain ⟨rest, total⟩ := Nat.exists_eq_add_of_le inside
      rw [load_store_outside, total, Nat.add_assoc, load_add, load_add, List.drop_left' load_length,
        List.take_left' load_length]
      -- A byte of the source that was stored over would be one of the destination.
      intro index within
      by_contra stored
      rw [List.length_take, load_length] at stored
      exact apart (BitVec.ofNat 64 (done + index)) (src + BitVec.ofNat 64 done + BitVec.ofNat 64 index - dest)
        (by bv_omega) (by omega) (by bv_omega)
    rw [memcpy]
    split
    · rw [← progress_zero, bytes_stored small fetched (by rw [load_length, Nat.zero_add])]
    · rw [threeLoops_stored small fetched load_length]

/-- Sixteen bytes from address 0 to address 64. -/
theorem memory_routines_exact_apart : memcpy (fun address => address.toNat.toUInt8) 64 0 16 =
    (64, AddressSpace.store (fun address => address.toNat.toUInt8) 64
      (AddressSpace.load (fun address => address.toNat.toUInt8) 0 16)) :=
  (memory_routines_exact _).2 64 0 16 fun first second inside within => by bv_omega

end Rucix.Lib
