import Rucix.Memory.Heap.Layout

namespace Rucix.Memory

open Rucix.Data Function List

namespace Chunk

/-- The test of the search loop. -/
def Fits (alignedSize : Nat) (chunk : Chunk) : Prop := chunk.free = true ∧ alignedSize ≤ chunk.size

def carve (alignedSize : Nat) (chunk : Chunk) : List Chunk :=
  if alignedSize + heapBlockSize + 16 < chunk.size then
    [⟨alignedSize, false⟩, ⟨chunk.size - alignedSize - heapBlockSize, true⟩]
  else [⟨chunk.size, false⟩]

def merge (left right : Chunk) : Chunk := ⟨left.size + (heapBlockSize + right.size), left.free⟩

theorem merge_end (left : Chunk) (addr : Nat) (right : Chunk) :
    addr + heapBlockSize + (left.merge right).size =
      addr + heapBlockSize + left.size + heapBlockSize + right.size := by
  simp only [merge]
  omega

end Chunk

namespace Heap

open Layout

variable {heap : Heap} {prev start addr alignedSize : Nat} {before behind rest : List Chunk}
  {chunk next : Chunk}

theorem relink_blocks (different : other ≠ addr) :
    (heap.relink (link addr 0 rest) newPrev).blocks other = heap.blocks other := by
  cases rest with
  | nil => simp [relink, link]
  | cons first rest =>
    by_cases null : addr = 0
    · simp [relink, link, null]
    · simp [relink, link, null, setBlock, different]

theorem relink_stored (positive : 0 < addr) (stored : Stored heap.blocks prev addr rest 0) :
    Stored (heap.relink (link addr 0 rest) newPrev).blocks newPrev addr rest 0 := by
  cases rest with
  | nil => trivial
  | cons first rest =>
    have nonnull : addr ≠ 0 := by omega
    rw [relink, link, if_neg nonnull]
    exact stored.relink

/-- Changing the header at one block, if its successors are still stored behind
it, replaces the block. -/
theorem stored_replace {blocks : Nat → HeapBlock} (stored : Stored blocks prev start (before ++ chunk :: behind) 0)
    (tail : Stored other (last prev start before) (finish start before) rest 0) (nonempty : rest ≠ [])
    (same : ∀ addr, addr < finish start before → other addr = blocks addr) :
    Stored other prev start (before ++ rest) 0 := by
  obtain ⟨head, -⟩ := (stored_append ..).mp stored
  refine (stored_append ..).mpr ⟨?_, tail⟩
  have pointer : link (finish start before) 0 rest = finish start before := by
    cases rest with
    | nil => exact absurd rfl nonempty
    | cons => rfl
  rw [pointer]
  exact head.frame fun addr _ below => same addr below

theorem setFree_stored (stored : Stored heap.blocks prev start (before ++ chunk :: behind) 0) (free : Bool) :
    Stored (heap.setBlock (finish start before)
        { heap.blocks (finish start before) with free }).blocks prev start
      (before ++ { chunk with free } :: behind) 0 := by
  obtain ⟨-, here, tail⟩ := (stored_append ..).mp stored
  refine stored_replace stored ⟨?_, tail.update_outside (.inl ?_)⟩ (by simp) ?_
  · simp only [setBlock, update_self, here]
    rfl
  · simp only [heapBlockSize]
    omega
  · intro addr below
    exact update_of_ne (Nat.ne_of_lt below) _ _

theorem absorb_stored (stored : Stored heap.blocks prev start (before ++ chunk :: next :: behind) 0)
    (bounded : finish start (before ++ chunk :: next :: behind) < 2 ^ 64) :
    Stored (heap.absorb (finish start before)
        (finish start before + heapBlockSize + chunk.size)).blocks prev start
      (before ++ chunk.merge next :: behind) 0 := by
  obtain ⟨-, here, there, tail⟩ := (stored_append ..).mp stored
  have upper := le_finish (finish start before + heapBlockSize + chunk.size + heapBlockSize +
    next.size) behind
  have room : 0 < heapBlockSize := by decide
  rw [finish_append] at bounded
  simp only [finish] at bounded
  have size : wrap 64 (chunk.size + (heapBlockSize + next.size)) =
      chunk.size + (heapBlockSize + next.size) := wrap_of_lt (by omega)
  have position := chunk.merge_end (finish start before) next
  simp only [absorb, here, there, setBlock, update_self]
  change Stored (relink _ (link _ 0 behind) _).blocks _ _ _ _
  refine stored_replace stored ⟨?_, ?_⟩ (by simp) ?_
  · rw [relink_blocks (by omega)]
    simp only [update_self, position]
    simp only [header, size, Chunk.merge]
  · rw [position]
    apply relink_stored (by omega)
    exact tail.update_outside (.inl (by omega))
  · intro addr below
    rw [relink_blocks (by omega)]
    exact update_of_ne (Nat.ne_of_lt below) _ _

theorem split_stored (stored : Stored heap.blocks prev start (before ++ chunk :: behind) 0)
    (bounded : finish start (before ++ chunk :: behind) < 2 ^ 64) (room : alignedSize + heapBlockSize ≤ chunk.size) :
    Stored (heap.split (finish start before) alignedSize).blocks prev start
      (before ++ ⟨alignedSize, chunk.free⟩ ::
        ⟨chunk.size - alignedSize - heapBlockSize, true⟩ :: behind) 0 := by
  obtain ⟨-, here, tail⟩ := (stored_append ..).mp stored
  have upper := le_finish (finish start before + heapBlockSize + chunk.size) behind
  have headerRoom : 0 < heapBlockSize := by decide
  rw [finish_append] at bounded
  simp only [finish] at bounded
  have newBlock : wrap 64 (finish start before + heapBlockSize + alignedSize) =
      finish start before + heapBlockSize + alignedSize := wrap_of_lt (by omega)
  have remainder : wrapSub 64 (wrapSub 64 chunk.size alignedSize) heapBlockSize =
      chunk.size - alignedSize - heapBlockSize := by
    have trimmed : wrapSub 64 chunk.size alignedSize = chunk.size - alignedSize :=
      wrapSub_of_le (by omega) (by omega)
    rw [trimmed, wrapSub_of_le (by omega) (by omega)]
  have position : finish start before + heapBlockSize + alignedSize + heapBlockSize +
      (chunk.size - alignedSize - heapBlockSize) = finish start before + heapBlockSize + chunk.size := by
    omega
  let newHeader : HeapBlock :=
    { size := chunk.size - alignedSize - heapBlockSize
      next := link (finish start before + heapBlockSize + chunk.size) 0 behind
      prev := finish start before, free := true, magic := heapMagic }
  let carved := heap.setBlock (finish start before + heapBlockSize + alignedSize) newHeader
  let linked := carved.relink newHeader.next (finish start before + heapBlockSize + alignedSize)
  have unfolded : heap.split (finish start before) alignedSize =
      linked.setBlock (finish start before) { linked.blocks (finish start before) with
        size := alignedSize, next := finish start before + heapBlockSize + alignedSize } := by
    simp only [split, here, newBlock, header, remainder]
    rfl
  have linkedSame : ∀ addr, addr ≠ finish start before + heapBlockSize + chunk.size →
      linked.blocks addr = carved.blocks addr := fun addr different =>
    relink_blocks different
  have carvedSame : ∀ addr, addr ≠ finish start before + heapBlockSize + alignedSize →
      carved.blocks addr = heap.blocks addr := fun addr different =>
    update_of_ne different _ _
  have atCurrent : linked.blocks (finish start before) = heap.blocks (finish start before) :=
    (linkedSame _ (by omega)).trans (carvedSame _ (by omega))
  have atNew : linked.blocks (finish start before + heapBlockSize + alignedSize) = newHeader :=
    (linkedSame _ (by omega)).trans (update_self ..)
  rw [unfolded, atCurrent, here]
  refine stored_replace stored ⟨?_, ⟨?_, ?_⟩⟩ (by simp) ?_
  · simp only [setBlock, update_self]
    rfl
  · simp only [setBlock]
    rw [update_of_ne (by omega), atNew]
    simp only [header, newHeader, position]
  · simp only [position]
    apply Stored.update_outside _ (.inl (by omega))
    apply relink_stored (by omega)
    exact tail.update_outside (.inl (by omega))
  · intro addr below
    simp only [setBlock]
    rw [update_of_ne (by omega), linkedSame _ (by omega), carvedSame _ (by omega)]

theorem claim_stored (stored : Stored heap.blocks prev start (before ++ chunk :: behind) 0) (low : 16 < start)
    (bounded : finish start (before ++ chunk :: behind) < 2 ^ 64) (fits : chunk.Fits alignedSize) :
    Stored (heap.claim (finish start before) alignedSize).blocks prev start
      (before ++ (chunk.carve alignedSize ++ behind)) 0 := by
  obtain ⟨-, here, -⟩ := (stored_append ..).mp stored
  have size : (heap.blocks (finish start before)).size = chunk.size := by rw [here]; rfl
  have lower := le_finish start before
  have upper := le_finish (finish start before + heapBlockSize + chunk.size) behind
  have extent := bounded
  rw [finish_append] at extent
  simp only [finish] at extent
  have small := fits.2
  have threshold : wrap 64 (alignedSize + heapBlockSize + 16) = alignedSize + heapBlockSize + 16 := by
    apply wrap_of_lt
    omega
  simp only [claim, size, threshold]
  by_cases large : alignedSize + heapBlockSize + 16 < chunk.size
  · rw [if_pos large, Chunk.carve, if_pos large]
    have split := split_stored stored bounded
      (show alignedSize + heapBlockSize ≤ chunk.size by omega)
    exact setFree_stored split false
  · rw [if_neg large, Chunk.carve, if_neg large]
    exact setFree_stored stored false

theorem kmallocFrom_cons (stored : Stored heap.blocks prev addr (chunk :: rest) 0) (positive : 0 < addr) :
    heap.kmallocFrom alignedSize (fuel + 1) (link addr 0 (chunk :: rest)) =
      if chunk.free = true ∧ alignedSize ≤ chunk.size then
        some (wrap 64 (addr + heapBlockSize), heap.claim addr alignedSize)
      else heap.kmallocFrom alignedSize fuel (link (addr + heapBlockSize + chunk.size) 0 rest) := by
  have nonnull : addr ≠ 0 := by omega
  rw [show link addr 0 (chunk :: rest) = addr from rfl, kmallocFrom, if_neg nonnull]
  simp only [stored.1, header]

/-- The search settles on the first block that fits, or returns NULL when there is none,
unless `fuel` runs out before. -/
theorem kmallocFrom_cases (stored : Stored heap.blocks prev addr rest 0) (positive : 0 < addr) (fuel : Nat) :
    (heap.kmallocFrom alignedSize fuel (link addr 0 rest) = none ∧ fuel ≤ rest.length) ∨
    (heap.kmallocFrom alignedSize fuel (link addr 0 rest) = some (0, heap) ∧
      ∀ chunk ∈ rest, ¬chunk.Fits alignedSize) ∨
    ∃ before chunk behind, heap.kmallocFrom alignedSize fuel (link addr 0 rest) =
        some (wrap 64 (finish addr before + heapBlockSize), heap.claim (finish addr before) alignedSize) ∧
      rest = before ++ chunk :: behind ∧ chunk.Fits alignedSize := by
  induction rest generalizing prev addr fuel with
  | nil =>
    cases fuel with
    | zero => exact .inl ⟨rfl, Nat.zero_le _⟩
    | succ fuel => exact .inr (.inl ⟨by simp [kmallocFrom, link], nofun⟩)
  | cons chunk behind ih =>
    cases fuel with
    | zero => exact .inl ⟨rfl, Nat.zero_le _⟩
    | succ fuel =>
      rw [kmallocFrom_cons stored positive]
      split
      · rename_i fits
        exact .inr (.inr ⟨[], chunk, behind, rfl, rfl, fits⟩)
      · rename_i unfit
        rcases ih stored.2 (by omega) fuel with
          ⟨stopped, short⟩ | ⟨failed, none⟩ | ⟨before, found, tail, claimed, rfl, fits⟩
        · exact .inl ⟨stopped, Nat.succ_le_succ short⟩
        · exact .inr (.inl ⟨failed, forall_mem_cons.mpr ⟨unfit, none⟩⟩)
        · exact .inr (.inr ⟨chunk :: before, found, tail, claimed, rfl, fits⟩)

end Heap

namespace Layout

/-- The layout from a freed block of `size` bytes on, once it has merged with a
free right neighbour. -/
def releaseNext (size : Nat) : List Chunk → List Chunk
  | [] => [⟨size, true⟩]
  | next :: rest =>
    if next.free then Chunk.merge ⟨size, true⟩ next :: rest else ⟨size, true⟩ :: next :: rest

/-- Merge the first block of `rest` into the last block of `before` if that
one is free. -/
def releasePrev (before rest : List Chunk) : List Chunk :=
  match before.getLast?, rest with
  | some left, block :: behind =>
    if left.free then before.dropLast ++ left.merge block :: behind else before ++ rest
  | _, _ => before ++ rest

def release (before : List Chunk) (size : Nat) (behind : List Chunk) : List Chunk :=
  releasePrev before (releaseNext size behind)

variable {after before behind : List Chunk} {block : Chunk}

/-- `chunks` after some free neighbours have been merged. -/
inductive Merged (chunks : List Chunk) : List Chunk → Prop where
  | same : Merged chunks chunks
  | join {before behind : List Chunk} {left right : Chunk}
      (earlier : Merged chunks (before ++ left :: right :: behind)) (leftFree : left.free = true)
      (rightFree : right.free = true) : Merged chunks (before ++ left.merge right :: behind)

theorem releasePrev_concat (left : Chunk) :
    releasePrev (first ++ [left]) (block :: behind) =
      if left.free then first ++ left.merge block :: behind else first ++ left :: block :: behind := by
  simp only [releasePrev, getLast?_append, dropLast_concat, append_assoc]
  rfl

theorem Merged.finish_eq (merged : Merged chunks after) : finish start after = finish start chunks := by
  induction merged with
  | same => rfl
  | @join before behind left right _ _ _ ih =>
    rw [← ih]
    simp only [finish_append, finish, left.merge_end]

theorem releaseNext_merged (size : Nat) (before behind : List Chunk) :
    Merged (before ++ ⟨size, true⟩ :: behind) (before ++ releaseNext size behind) := by
  cases behind with
  | nil => exact .same
  | cons next rest =>
    simp only [releaseNext]
    split
    · rename_i free
      exact .join .same rfl free
    · exact .same

theorem releasePrev_merged (merged : Merged chunks (before ++ block :: behind)) (free : block.free = true) :
    Merged chunks (releasePrev before (block :: behind)) := by
  rcases eq_nil_or_concat before with rfl | ⟨first, left, rfl⟩
  · exact merged
  · rw [concat_eq_append, append_assoc] at merged
    rw [concat_eq_append, releasePrev_concat]
    split
    · rename_i leftFree
      exact .join merged leftFree free
    · exact merged

theorem releaseNext_free (size : Nat) (behind : List Chunk) :
    ∃ block rest, releaseNext size behind = block :: rest ∧ block.free = true := by
  cases behind with
  | nil => exact ⟨_, _, rfl, rfl⟩
  | cons next rest =>
    simp only [releaseNext]
    split <;> exact ⟨_, _, rfl, rfl⟩

theorem release_merged :
    Merged (before ++ ⟨size, true⟩ :: behind) (release before size behind) := by
  have forward := releaseNext_merged size before behind
  obtain ⟨block, rest, shape, free⟩ := releaseNext_free size behind
  rw [release, shape]
  rw [shape] at forward
  exact releasePrev_merged forward free

end Layout

namespace Heap

open Layout

variable {heap : Heap} {start : Nat} {before behind : List Chunk} {chunk : Chunk}

theorem absorbNext_stored (stored : Stored heap.blocks 0 start (before ++ ⟨chunk.size, true⟩ :: behind) 0)
    (positive : 0 < start) (bounded : finish start (before ++ ⟨chunk.size, true⟩ :: behind) < 2 ^ 64) :
    Stored (heap.absorbNext (finish start before)).blocks 0 start
      (before ++ releaseNext chunk.size behind) 0 := by
  obtain ⟨-, here, tail⟩ := (stored_append ..).mp stored
  have pointer : (heap.blocks (finish start before)).next =
      link (finish start before + heapBlockSize + chunk.size) 0 behind := by rw [here]; rfl
  have lower := le_finish start before
  cases behind with
  | nil =>
    simp only [absorbNext, pointer]
    exact stored
  | cons next rest =>
    have nonnull : finish start before + heapBlockSize + chunk.size ≠ 0 := by omega
    have flag : (heap.blocks (finish start before + heapBlockSize + chunk.size)).free =
        next.free := by rw [tail.1]; rfl
    simp only [absorbNext, pointer, link, ne_eq, nonnull, not_false_eq_true, true_and, flag,
      releaseNext]
    split
    · exact absorb_stored stored bounded
    · exact stored

theorem absorbPrev_stored (nonempty : rest ≠ []) (stored : Stored heap.blocks 0 start (before ++ rest) 0)
    (positive : 0 < start) (bounded : finish start (before ++ rest) < 2 ^ 64) :
    Stored (heap.absorbPrev (finish start before)).blocks 0 start (releasePrev before rest) 0 := by
  obtain ⟨block, behind, rfl⟩ := exists_cons_of_ne_nil nonempty
  obtain ⟨-, here, -⟩ := (stored_append ..).mp stored
  have pointer : (heap.blocks (finish start before)).prev = last 0 start before := by
    rw [here]
    rfl
  rcases eq_nil_or_concat before with rfl | ⟨first, left, rfl⟩
  · simp only [absorbPrev, pointer]
    exact stored
  · have position : last 0 start (first ++ [left]) = finish start first := by
      rw [last_append]
      rfl
    have following : finish start (first ++ [left]) =
        finish start first + heapBlockSize + left.size := by
      rw [finish_append]
      rfl
    rw [concat_eq_append] at *
    rw [append_assoc] at stored bounded
    obtain ⟨-, leftHeader, -⟩ := (stored_append ..).mp stored
    have lower := le_finish start first
    have nonnull : finish start first ≠ 0 := by omega
    have flag : (heap.blocks (finish start first)).free = left.free := by rw [leftHeader]; rfl
    simp only [absorbPrev, pointer, position, ne_eq, nonnull, not_false_eq_true, true_and, flag, releasePrev_concat]
    split
    · rw [following]
      exact absorb_stored stored bounded
    · exact stored

theorem kfree_stored (stored : Stored heap.blocks 0 start (before ++ chunk :: behind) 0) (positive : 0 < start)
    (bounded : finish start (before ++ chunk :: behind) < 2 ^ 64) :
    Stored (heap.kfree (finish start before + heapBlockSize)).blocks 0 start
      (release before chunk.size behind) 0 := by
  obtain ⟨-, here, -⟩ := (stored_append ..).mp stored
  have upper := le_finish (finish start before + heapBlockSize + chunk.size) behind
  have extent := bounded
  rw [finish_append] at extent
  simp only [finish] at extent
  have nonnull : finish start before + heapBlockSize ≠ 0 := by
    simp only [heapBlockSize]
    omega
  have block : wrapSub 64 (finish start before + heapBlockSize) heapBlockSize =
      finish start before := by
    rw [wrapSub_of_le (by omega) (by omega), Nat.add_sub_cancel]
  have magic : (heap.blocks (finish start before)).magic = heapMagic := by
    rw [here]
    rfl
  have unfolded : heap.kfree (finish start before + heapBlockSize) =
      ((heap.setBlock (finish start before)
        { heap.blocks (finish start before) with free := true }).absorbNext
          (finish start before)).absorbPrev (finish start before) := by
    rw [kfree, if_neg nonnull, block, if_neg (not_not.mpr magic)]
  rw [unfolded]
  have freed := setFree_stored stored true
  have sameExtent : finish start (before ++ ⟨chunk.size, true⟩ :: behind) =
      finish start (before ++ chunk :: behind) := by simp [finish_append, finish]
  have forward := absorbNext_stored freed positive (by rw [sameExtent]; exact bounded)
  obtain ⟨block, rest, shape, -⟩ := releaseNext_free chunk.size behind
  refine absorbPrev_stored (by simp [shape]) forward positive ?_
  rw [(releaseNext_merged chunk.size before behind).finish_eq, sameExtent]
  exact bounded

@[simp]
theorem setBlock_freeList : (heap.setBlock addr block).freeList = heap.freeList := rfl

@[simp]
theorem relink_freeList (prev : Nat) : (heap.relink addr prev).freeList = heap.freeList := by
  simp only [relink]
  split <;> rfl

@[simp]
theorem split_freeList :
    (heap.split curr alignedSize).freeList = heap.freeList := by simp [split]

@[simp]
theorem claim_freeList : (heap.claim curr alignedSize).freeList = heap.freeList := by
  simp only [claim]
  split <;> simp

@[simp]
theorem absorb_freeList : (heap.absorb left right).freeList = heap.freeList := by simp [absorb]

@[simp]
theorem kfree_freeList : (heap.kfree ptr).freeList = heap.freeList := by
  simp only [kfree, absorbPrev, absorbNext]
  repeat' split
  all_goals simp

end Heap

end Rucix.Memory
