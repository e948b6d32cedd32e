import Mathlib.Data.List.Chain
import Rucix.Memory.Heap.Refinement

namespace Rucix.Memory

open Rucix.Data List

namespace Layout

variable {start alignedSize size : Nat} {before behind : List Chunk} {chunk next : Chunk}

def Coalesced (chunks : List Chunk) : Prop :=
  chunks.IsChain fun left right => ¬(left.free = true ∧ right.free = true)

theorem coalesced_cons : Coalesced (chunk :: rest) ↔
      (∀ next ∈ rest.head?, ¬(chunk.free = true ∧ next.free = true)) ∧ Coalesced rest :=
  isChain_cons

theorem coalesced_append : Coalesced (before ++ rest) ↔ Coalesced before ∧ Coalesced rest ∧
      ∀ left ∈ before.getLast?, ∀ right ∈ rest.head?, ¬(left.free = true ∧ right.free = true) :=
  isChain_append

theorem Coalesced.replace (before : List Chunk) (same : other.free = chunk.free)
    (coalesced : Coalesced (before ++ chunk :: rest)) : Coalesced (before ++ other :: rest) := by
  obtain ⟨head, tail, boundary⟩ := (coalesced_append ..).mp coalesced
  obtain ⟨following, remaining⟩ := (coalesced_cons ..).mp tail
  refine (coalesced_append ..).mpr ⟨head, (coalesced_cons ..).mpr ⟨?_, remaining⟩, ?_⟩
  · rwa [same]
  · intro left last right first
    cases first
    rw [same]
    exact boundary left last chunk rfl

theorem Coalesced.carve (coalesced : Coalesced (before ++ chunk :: behind)) (free : chunk.free = true) :
    Coalesced (before ++ (chunk.carve alignedSize ++ behind)) := by
  obtain ⟨head, tail, boundary⟩ := (coalesced_append ..).mp coalesced
  obtain ⟨following, remaining⟩ := (coalesced_cons ..).mp tail
  rw [free] at following
  refine (coalesced_append ..).mpr ⟨head, ?_, ?_⟩
  · simp only [Chunk.carve]
    split
    · refine (coalesced_cons ..).mpr ⟨by simp, (coalesced_cons ..).mpr ⟨?_, remaining⟩⟩
      simpa using following
    · exact (coalesced_cons ..).mpr ⟨by simp, remaining⟩
  · intro left last right first
    simp only [Chunk.carve] at first
    split at first <;> cases first <;> simp

theorem Coalesced.releaseNext (coalesced : Coalesced behind) (size : Nat) : Coalesced (releaseNext size behind) := by
  cases behind with
  | nil => exact isChain_singleton _
  | cons next rest =>
    simp only [Layout.releaseNext]
    split
    · rename_i free
      exact Coalesced.replace [] (by simp [Chunk.merge, free]) coalesced
    · rename_i used
      exact (coalesced_cons ..).mpr ⟨by simpa using used, coalesced⟩

theorem Coalesced.releasePrev (head : Coalesced before) (free : chunk.free = true) (tail : Coalesced (chunk :: rest)) :
    Coalesced (releasePrev before (chunk :: rest)) := by
  rcases eq_nil_or_concat before with rfl | ⟨first, left, rfl⟩
  · exact tail
  · rw [concat_eq_append] at *
    obtain ⟨initial, -, boundary⟩ := (coalesced_append ..).mp head
    rw [releasePrev_concat]
    split
    · rename_i leftFree
      refine (coalesced_append ..).mpr ⟨initial, ?_, ?_⟩
      · exact Coalesced.replace [] (by simp [Chunk.merge, leftFree, free]) tail
      · intro last lastMember right rightMember
        cases rightMember
        exact boundary last lastMember left rfl
    · rename_i used
      refine (coalesced_append ..).mpr ⟨initial, (coalesced_cons ..).mpr ⟨fun _ _ both => used both.1, tail⟩, ?_⟩
      intro last lastMember right rightMember
      cases rightMember
      exact boundary last lastMember left rfl

theorem finish_carve (start : Nat) :
    finish start (chunk.carve alignedSize) = start + heapBlockSize + chunk.size := by
  simp only [Chunk.carve]
  split
  · simp only [finish]
    omega
  · rfl

theorem block_middle (start : Nat) :
    Block (finish start before) chunk start (before ++ chunk :: behind) :=
  (block_append ..).mpr (.inr (.inl ⟨rfl, rfl⟩))

def usedBlocks : Nat → List Chunk → List (Nat × Nat)
  | _, [] => []
  | start, chunk :: rest =>
    if chunk.free then usedBlocks (start + heapBlockSize + chunk.size) rest
    else (start, chunk.size) :: usedBlocks (start + heapBlockSize + chunk.size) rest

theorem usedBlocks_append : usedBlocks start (before ++ behind) =
      usedBlocks start before ++ usedBlocks (finish start before) behind := by
  induction before generalizing start with
  | nil => rfl
  | cons chunk rest ih =>
    simp only [cons_append, usedBlocks, ih]
    split <;> rfl

theorem mem_usedBlocks : (addr, size) ∈ usedBlocks start rest ↔ Block addr ⟨size, false⟩ start rest := by
  induction rest generalizing start with
  | nil => simp [usedBlocks, Block]
  | cons first rest ih =>
    obtain ⟨extent, free⟩ := first
    cases free <;> simp [usedBlocks, Block, ih]

theorem Block.used (block : Block addr chunk start chunks) (used : chunk.free = false) :
    (addr, chunk.size) ∈ usedBlocks start chunks := by
  cases chunk
  cases used
  exact mem_usedBlocks.mpr block

/-- A block in use is not where a free block is. -/
theorem ne_of_used (used : (addr, size) ∈ usedBlocks start (before ++ chunk :: behind)) (free : chunk.free = true) :
    addr ≠ finish start before := by
  rintro rfl
  have same := (mem_usedBlocks.mp used).unique (block_middle start)
  rw [← same] at free
  cases free

theorem Merged.usedBlocks_eq {after : List Chunk} (merged : Merged chunks after) :
    usedBlocks start after = usedBlocks start chunks := by
  induction merged with
  | same => rfl
  | @join before behind left right _ leftFree rightFree ih =>
    rw [← ih]
    simp only [usedBlocks_append, usedBlocks, leftFree, rightFree, left.merge_end, if_true]
    rw [Chunk.merge, if_pos leftFree]

theorem Merged.block {after : List Chunk} (merged : Merged chunks after) (block : Block addr other start after) :
    ∃ old, Block addr old start chunks := by
  induction merged generalizing other with
  | same => exact ⟨other, block⟩
  | @join before behind left right _ _ _ ih =>
    rw [block_append] at block
    rcases block with early | ⟨here, -⟩ | late
    · exact ih ((block_append ..).mpr (.inl early))
    · exact ih ((block_append ..).mpr (.inr (.inl ⟨here, rfl⟩)))
    · rw [left.merge_end] at late
      exact ih ((block_append ..).mpr (.inr (.inr (.inr late))))

theorem usedBlocks_carve (fits : chunk.Fits alignedSize) :
    ∃ claimed, alignedSize ≤ claimed ∧
      usedBlocks start (before ++ (chunk.carve alignedSize ++ behind)) =
        usedBlocks start before ++ (finish start before, claimed) ::
          usedBlocks (finish start before + heapBlockSize + chunk.size) behind := by
  rw [usedBlocks_append, usedBlocks_append, finish_carve]
  simp only [Chunk.carve]
  split
  · exact ⟨alignedSize, Nat.le_refl _, by simp [usedBlocks]⟩
  · exact ⟨chunk.size, fits.2, by simp [usedBlocks]⟩

theorem block_of_carve (block : Block addr other start (before ++ (chunk.carve alignedSize ++ behind))) :
    (∃ old, Block addr old start (before ++ chunk :: behind)) ∨
      addr = finish start before + heapBlockSize + alignedSize := by
  rw [block_append] at block
  rcases block with early | late
  · exact .inl ⟨other, (block_append ..).mpr (.inl early)⟩
  · rw [block_append, finish_carve] at late
    rcases late with carved | beyond
    · simp only [Chunk.carve] at carved
      split at carved
      · rcases carved with ⟨rfl, -⟩ | ⟨rfl, -⟩ | none
        · exact .inl ⟨chunk, block_middle ..⟩
        · exact .inr rfl
        · exact none.elim
      · rcases carved with ⟨rfl, -⟩ | none
        · exact .inl ⟨chunk, block_middle ..⟩
        · exact none.elim
    · exact .inl ⟨other, (block_append ..).mpr (.inr (.inr beyond))⟩

def Aligned (start : Nat) (chunks : List Chunk) : Prop :=
  ∀ addr chunk, Block addr chunk start chunks → addr % 8 = start % 8

/-- What the heap keeps true of its layout: it fills the region, and free
neighbours have been merged. -/
structure Tiling (start size : Nat) (chunks : List Chunk) : Prop where
  nonempty : chunks ≠ []
  extent : finish start chunks = start + size
  coalesced : Coalesced chunks
  aligned : Aligned start chunks

theorem tiling_single (room : heapBlockSize ≤ size) :
    Tiling start size [⟨size - heapBlockSize, true⟩] where
  nonempty := by simp
  extent := by
    simp only [finish]
    omega
  coalesced := isChain_singleton _
  aligned := by
    rintro addr chunk (⟨rfl, -⟩ | none)
    · rfl
    · exact none.elim

theorem Tiling.carve (tiling : Tiling start size (before ++ chunk :: behind)) (fits : chunk.Fits alignedSize)
    (multiple : alignedSize % 8 = 0) : Tiling start size (before ++ (chunk.carve alignedSize ++ behind)) where
  nonempty := by
    simp only [Chunk.carve]
    split <;> simp
  extent := by
    rw [← tiling.extent, finish_append, finish_append, finish_append, finish_carve]
    rfl
  coalesced := tiling.coalesced.carve fits.1
  aligned := by
    intro addr other block
    rcases block_of_carve block with ⟨old, found⟩ | rfl
    · exact tiling.aligned _ _ found
    · have base := tiling.aligned _ _ (block_middle start)
      simp only [heapBlockSize]
      omega

theorem Tiling.release (tiling : Tiling start size (before ++ chunk :: behind)) :
    Tiling start size (release before chunk.size behind) where
  nonempty := by
    obtain ⟨block, rest, shape, -⟩ := releaseNext_free chunk.size behind
    simp only [Layout.release, releasePrev, shape]
    split
    · split <;> simp
    · simp
  extent := by
    rw [(release_merged ..).finish_eq, ← tiling.extent]
    simp [finish_append, finish]
  coalesced := by
    obtain ⟨head, tail, -⟩ := (coalesced_append ..).mp tiling.coalesced
    have forward := ((coalesced_cons ..).mp tail).2.releaseNext chunk.size
    obtain ⟨block, rest, shape, free⟩ := releaseNext_free chunk.size behind
    rw [Layout.release, shape]
    rw [shape] at forward
    exact head.releasePrev free forward
  aligned := by
    intro addr other block
    obtain ⟨old, found⟩ := (release_merged ..).block block
    rw [block_append] at found
    rcases found with early | ⟨here, -⟩ | late
    · exact tiling.aligned _ _ ((block_append ..).mpr (.inl early))
    · exact here ▸ tiling.aligned _ _ (block_middle start)
    · exact tiling.aligned _ _ ((block_append ..).mpr (.inr (.inr late)))

/-- Freeing a block takes it, and nothing else, out of the blocks in use. -/
theorem usedBlocks_release (start : Nat) (before : List Chunk) (chunk : Chunk) (behind : List Chunk) :
    usedBlocks start (release before chunk.size behind) =
      (usedBlocks start (before ++ chunk :: behind)).filter (·.1 ≠ finish start before) := by
  have apart (first : Nat) (others : List Chunk)
      (outside : finish first others ≤ finish start before ∨ finish start before < first) :
      (usedBlocks first others).filter (·.1 ≠ finish start before) = usedBlocks first others := by
    refine filter_eq_self.mpr fun block member => ?_
    have bounds := (mem_usedBlocks.mp member).bounds
    simp only [heapBlockSize] at bounds
    exact decide_eq_true (by omega)
  have below := apart start before (.inl (Nat.le_refl _))
  have above := apart (finish start before + heapBlockSize + chunk.size) behind
    (.inr (by simp only [heapBlockSize]; omega))
  rw [(release_merged ..).usedBlocks_eq]
  simp only [usedBlocks_append, usedBlocks, if_true, filter_append, below]
  split
  · rw [above]
  · rw [filter_cons_of_neg (by simp), above]

end Layout

end Rucix.Memory
