import Rucix.Fs.Fat32.Integrity
import Rucix.Fs.Fat32.Read
import Rucix.Fs.Filemap.Contents
import Rucix.Fs.Ramfs.Storage

namespace Rucix.Fs

open Rucix.Data Ramfs Fat32

/-! `generic_file_read`, `ramfs_read` and `fat32_read` at the end of a file. -/

/-- The result, `*offset` and the bytes of a read of `count` bytes that stops at
the end of the file. -/
def readToEnd (contents : Block) (size pos count : Nat) : Int × Nat × List UInt8 :=
  ((min count (size - pos) : Nat), pos + min count (size - pos), copyBytes contents pos (min count (size - pos)))

/-- `fat32_read` with `*offset`, which moves with every byte that it copies. -/
def fat32Read (sbi : SbInfo) (fuel : Nat) (inode : Fat32.Inode) (offset count : Nat) : Io (Int × Nat × List UInt8) := do
  let (result, bytes) ← Fat32.read sbi fuel inode offset count
  return (result, wrap 64 (offset + bytes.length), bytes)

/-- A page cache that holds the contents; there is no `readpage`. -/
structure Filemap.HasContents (state : Filemap) (touched : Finset Nat) (contents : Block) (size : Nat) : Prop where
  mapped : state.hasMapping = true
  backed : state.Backed touched
  size_eq : state.iSize = size
  bytes : ∀ place, place < size → state.byteAt place = contents place

structure Ramfs.RegularInode.HasContents (inode : RegularInode) (contents : Block) (size : Nat) : Prop where
  size_eq : inode.iSize = size
  fits : size ≤ inode.capacity
  bytes : ∀ place, place < size → ∃ data, inode.data = some data ∧ data place = contents place

structure Fat32.HasContents (sbi : SbInfo) (volume : Volume) (chains : Nat → List Nat) (ino : Nat) (contents : Block)
    (size : Nat) : Prop where
  geometry : Geometry sbi
  wellFormed : Chains sbi volume.fat chains
  used : chains ino ≠ []
  covered : size ≤ (chains ino).length * (sbi.sectorsPerCluster * 512)
  bytes : ∀ place, place < size → fileBytes sbi volume (chains ino) place = contents place

variable {contents : Block} {size pos count : Nat}

theorem copyBytes_min (same : ∀ place, place < size → bytes place = contents place) :
    copyBytes bytes pos (min count (size - pos)) = copyBytes contents pos (min count (size - pos)) :=
  copyBytes_congr fun index inside => same _ (by omega)

theorem Fat32.HasContents.size_lt (has : Fat32.HasContents sbi volume chains ino contents size) : size ≤ 2 ^ 41 := by
  have few := has.wellFormed.length_mul_le has.geometry.cluster_pos ino
  have covered := has.covered
  rw [← Nat.mul_assoc] at covered
  omega

theorem Fat32.HasContents.read (has : Fat32.HasContents sbi volume chains ino contents size) (position : pos < 2 ^ 64)
    : Finishes (Represents sbi) (fun fuel => fat32Read sbi fuel ⟨ino, size⟩ pos count) volume
      (readToEnd contents size pos count) volume := by
  obtain ⟨rest, shape⟩ := has.wellFormed.shape has.used
  have finishes := read_finishes has.geometry has.wellFormed
    (show chains (Inode.mk ino size).ino = (Inode.mk ino size).ino :: rest from shape) has.covered pos count
  have small := has.size_lt
  rw [copyBytes_min has.bytes] at finishes
  refine .bind finishes ?_
  simp only [copyBytes_length]
  rw [wrap_of_lt (by omega)]
  exact .pure

theorem Ramfs.RegularInode.HasContents.read {inode : RegularInode} (has : inode.HasContents contents size)
    (small : size ≤ 2 ^ 41)
    (counts : count < 2 ^ 31) : inode.ramfsRead count pos = some (readToEnd contents size pos count) := by
  unfold RegularInode.ramfsRead readToEnd
  rw [has.size_eq]
  by_cases beyond : size ≤ pos
  · rw [if_pos beyond, Nat.sub_eq_zero_of_le beyond, Nat.min_zero]
    rfl
  · obtain ⟨data, isData, -⟩ := has.bytes pos (by omega)
    have clipped : (if size < wrap 64 (pos + count) then size - pos else count) = min count (size - pos) := by
      rw [wrap_of_lt (by omega)]
      split <;> omega
    have same : ∀ place, place < size → data place = contents place := by
      intro place inside
      obtain ⟨other, isOther, byte⟩ := has.bytes place inside
      cases isData.symm.trans isOther
      exact byte
    have fits := has.fits
    have copied : inode.copyOut pos (min count (size - pos)) =
        some (copyBytes contents pos (min count (size - pos))) := by
      rw [← copyBytes_min same]
      unfold RegularInode.copyOut
      split
      · rename_i none
        rw [none]
        rfl
      · rw [isData]
        exact if_pos (by omega)
    simp only [if_neg beyond, clipped, copied, Option.map_some]
    rw [wrap_of_lt (by omega)]

/-- The reads of ramfs and FAT32 stop at the end of the file.  That of the page
cache does as they do exactly if it does not reach beyond the end. -/
theorem read_paths_agree {state : Filemap} {inode : RegularInode} (cached : state.HasContents touched contents size)
    (inMemory : inode.HasContents contents size) (onDisk : Fat32.HasContents sbi volume chains ino contents size)
    (position : pos < 2 ^ 64) (counts : count < 2 ^ 31)
    (allocates : count ≠ 0 → state.Allocates allocs (pos / pageSize) (pos + count)) :
    inode.ramfsRead count pos = some (readToEnd contents size pos count) ∧
      Finishes (Represents sbi) (fun fuel => fat32Read sbi fuel ⟨ino, size⟩ pos count) volume
        (readToEnd contents size pos count) volume ∧
      (pos + count < 2 ^ 64 → (count ≤ size - pos ↔ (genericFileRead allocs none state count pos).map (fun returned =>
        (returned.result, returned.ppos, returned.moved)) = some (readToEnd contents size pos count))) := by
  refine ⟨inMemory.read onDisk.size_lt counts, onDisk.read position, fun bounded => ?_⟩
  obtain ⟨after, done, -⟩ := genericFileRead_spec cached.mapped cached.backed bounded allocates
  rw [done, Option.map_some, readToEnd]
  constructor
  · intro inside
    have bytes : copyBytes contents pos count = (List.range count).map fun k => state.byteAt (pos + k) :=
      copyBytes_congr fun index below => (cached.bytes _ (by omega)).symm
    rw [Nat.min_eq_left inside, bytes]
  · intro same
    have results : (count : Int) = (min count (size - pos) : Nat) := congrArg Prod.fst (Option.some.inj same)
    omega

/-- The last two of three bytes, which the page cache has from a write. -/
theorem read_paths_agree_three_bytes :
    (RegularInode.mk (some (Block.zero.put 0 [1, 2, 3])) 4096 3).ramfsRead 2 1 = some (2, 3, [2, 3]) ∧
      ((genericFileWrite distinctAllocs none usedFrames [1, 2, 3] 0).bind fun written =>
        (genericFileRead (fun index => distinctAllocs (index + 1)) none written.state 2 1).map fun returned =>
          (returned.result, returned.ppos, returned.moved)) = some (2, 3, [2, 3]) := by
  have empty : usedFrames.Empty := ⟨rfl, rfl, rfl⟩
  have page : (genericFileWrite distinctAllocs none usedFrames [1, 2, 3] 0).map (fun written =>
      (written.state.pages 1, written.state.frameOf 0)) = some (none, some 0) := by
    decide +kernel
  obtain ⟨state, done, backed, bytes, size, mapped⟩ := genericFileWrite_spec empty.mapped empty.represents.backed
    (show 0 + [1, 2, 3].length < 2 ^ 64 by decide) fun _ => usedFrames_allocates 3
  rw [done, Option.map_some, Option.some.injEq, Prod.mk.injEq] at page
  rw [done]
  have cached : state.HasContents _ (Block.zero.put 0 [1, 2, 3]) 3 :=
    ⟨mapped, backed, size, fun place inside => by rw [bytes]; interval_cases place <;> decide +kernel⟩
  have inMemory : (RegularInode.mk (some (Block.zero.put 0 [1, 2, 3])) 4096 3).HasContents _ 3 :=
    ⟨rfl, by decide, fun _ _ => ⟨_, rfl, rfl⟩⟩
  have onDisk : Fat32.HasContents smallInfo
      { smallDisk.volume smallInfo with data := fun _ _ => Block.zero.put 0 [1, 2, 3] } (singleChains (· = 2)) 2
      (Block.zero.put 0 [1, 2, 3]) 3 :=
    ⟨smallInfo_addressable.toGeometry, (smallState_wellFormed.holds (fun _ => rfl) smallState_placed).wellFormed,
      by decide, by decide, fun place inside => by interval_cases place <;> decide +kernel⟩
  have allocates : state.Allocates (fun index => distinctAllocs (index + 1)) 0 3 := by
    refine ⟨fun index _ first => ?_, fun index other _ less second => absurd second (by simp only [pageSize]; omega)⟩
    obtain rfl : index = 0 := by simp only [pageSize] at first; omega
    refine ⟨1, 1, rfl, rfl, fun _ => rfl, page.1, fun other held => ?_⟩
    have touched := (backed.member other).mpr (by simp [held])
    obtain ⟨place, inside, rfl⟩ : ∃ place, place < 3 ∧ place / pageSize = other := by
      simpa [touchedPages, pagesOf] using touched
    rw [Nat.div_eq_of_lt (Nat.lt_trans inside (by decide))] at held
    cases page.2.symm.trans held
  have agree := read_paths_agree cached inMemory onDisk (show 1 < 2 ^ 64 by decide) (show 2 < 2 ^ 31 by decide)
    fun _ => allocates
  exact ⟨agree.1, (agree.2.2 (by decide)).mp (by decide)⟩

/-- One byte is read from an empty file. -/
theorem empty_file_read : RegularInode.ramfsGetInode.ramfsRead 1 0 = some (0, 0, []) ∧
    ((fat32Read smallInfo 0 ⟨2, 0⟩ 0 1).run smallDisk).map Prod.fst = some (0, 0, []) ∧
    (genericFileRead distinctAllocs none usedFrames 1 0).map (fun returned =>
      (returned.result, returned.ppos, returned.moved)) = some (1, 1, [0]) :=
  ⟨rfl, rfl, by decide +kernel⟩

end Rucix.Fs
