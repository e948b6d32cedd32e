import Rucix.Memory.Heap.Safety

namespace Rucix.Memory

open Rucix.Data Layout List

/-! What the block list depends on: there is a free block between two blocks in use
exactly where they do not touch.
-/

namespace Layout

/-- A free block reaches up to the first block in use. -/
theorem Coalesced.free_end (start : Nat) (coalesced : Coalesced (chunk :: rest)) (free : chunk.free = true) :
    start + heapBlockSize + chunk.size = match usedBlocks start (chunk :: rest) with
      | [] => finish start (chunk :: rest)
      | block :: _ => block.1 := by
  obtain ⟨separate, remaining⟩ := (coalesced_cons ..).mp coalesced
  rw [usedBlocks, if_pos free]
  cases rest with
  | nil => rfl
  | cons next behind =>
    have used : ¬next.free = true := fun both => separate next rfl ⟨free, both⟩
    rw [usedBlocks, if_neg used]

theorem Coalesced.eq_of_used (first : Coalesced left) (second : Coalesced right)
    (extent : finish start left = finish start right) (used : usedBlocks start left = usedBlocks start right) :
    left = right := by
  induction left generalizing start right with
  | nil =>
    cases right with
    | nil => rfl
    | cons chunk rest =>
      have := le_finish (start + heapBlockSize + chunk.size) rest
      simp only [finish, heapBlockSize] at extent this
      omega
  | cons chunk rest ih =>
    cases right with
    | nil =>
      have := le_finish (start + heapBlockSize + chunk.size) rest
      simp only [finish, heapBlockSize] at extent this
      omega
    | cons other behind =>
      have same : chunk = other := by
        obtain ⟨size, free⟩ := chunk
        obtain ⟨otherSize, otherFree⟩ := other
        cases free <;> cases otherFree
        · simp only [usedBlocks, Bool.false_eq_true, if_false, cons.injEq, Prod.mk.injEq] at used
          rw [used.1.2]
        · have member : (start, size) ∈ usedBlocks start (⟨otherSize, true⟩ :: behind) := by
            rw [← used]
            simp [usedBlocks]
          exact absurd rfl (show start ≠ finish start [] from ne_of_used member rfl)
        · have member : (start, otherSize) ∈ usedBlocks start (⟨size, true⟩ :: rest) := by
            rw [used]
            simp [usedBlocks]
          exact absurd rfl (show start ≠ finish start [] from ne_of_used member rfl)
        · have firstEnd := first.free_end start rfl
          have secondEnd := second.free_end start rfl
          rw [used, extent, ← secondEnd] at firstEnd
          have : size = otherSize := by simpa using firstEnd
          rw [this]
      subst same
      have remaining : usedBlocks (start + heapBlockSize + chunk.size) rest =
          usedBlocks (start + heapBlockSize + chunk.size) behind := by
        simp only [usedBlocks] at used
        split at used
        · exact used
        · exact tail_eq_of_cons_eq used
      rw [ih ((coalesced_cons ..).mp first).2 ((coalesced_cons ..).mp second).2 extent remaining]

theorem Stored.chunks_eq {prev : Nat} (stored : Stored blocks prev start chunks 0) :
    (addresses start chunks).map
      (fun addr => (⟨(blocks addr).size, (blocks addr).free⟩ : Chunk)) = chunks := by
  induction chunks generalizing prev start with
  | nil => rfl
  | cons chunk rest ih =>
    rw [addresses, map_cons, stored.1, ih stored.2]
    rfl

theorem Stored.forall_fits {blocks : Nat → HeapBlock} {prev needed : Nat} {chunks : List Chunk}
    (stored : Stored blocks prev start chunks 0) : (∀ addr ∈ addresses start chunks,
      ¬((blocks addr).free = true ∧ needed ≤ (blocks addr).size)) ↔
        ∀ chunk ∈ chunks, ¬chunk.Fits needed := by
  have mapped : (∀ chunk ∈ (addresses start chunks).map
      (fun addr => (⟨(blocks addr).size, (blocks addr).free⟩ : Chunk)), ¬chunk.Fits needed) ↔ _ :=
    forall_mem_map
  rw [stored.chunks_eq] at mapped
  exact mapped.symm

end Layout

namespace Heap

/-- The block list: the address, size and state of each block from `free_list` on. -/
def BlockList (heap : Heap) (items : List (Nat × Chunk)) : Prop :=
  ∃ path, Follows heap.blocks heap.freeList path ∧
    items = path.map fun addr => (addr, ⟨(heap.blocks addr).size, (heap.blocks addr).free⟩)

/-- What `kmalloc` promises for a request: enough room, and NULL only when no
block has the rounded size. -/
def Adequate (heap : Heap) (path : List Nat) (request : Nat) : Prop :=
  ∀ fuel ptr after, heap.kmalloc fuel request = some (ptr, after) →
    (ptr ≠ 0 → request ≤ after.payload ptr) ∧
    (ptr = 0 ↔ ∀ addr ∈ path, ¬((heap.blocks addr).free = true ∧
      (request + 7) / 8 * 8 ≤ (heap.blocks addr).size)) ∧
    (ptr = 0 → after = heap)

theorem Follows.unique {blocks : Nat → HeapBlock} (first : Follows blocks addr path)
    (second : Follows blocks addr other) : path = other := by
  induction path generalizing addr other with
  | nil =>
    cases other with
    | nil => rfl
    | cons next rest => exact absurd (second.1.symm.trans first) second.2.1
  | cons here rest ih =>
    obtain ⟨rfl, nonnull, onward⟩ := first
    cases other with
    | nil => exact absurd second nonnull
    | cons next behind =>
      obtain ⟨rfl, -, further⟩ := second
      rw [ih onward further]

theorem alignSize_small (small : size ≤ 2 ^ 64 - 8) : alignSize size = (size + 7) / 8 * 8 := by
  rw [alignSize_eq, wrap_of_lt (by omega)]

theorem alignSize_large (large : 2 ^ 64 - 8 < size) (word : size < 2 ^ 64) : alignSize size = 0 := by
  rw [alignSize_eq, wrap]
  omega

end Heap

namespace HeapClient

namespace Sound

variable (sound : Sound start size client chunks)
include sound

theorem follows (positive : 0 < start) :
    Heap.Follows client.heap.blocks client.heap.freeList (addresses start chunks) := by
  rw [sound.pointer]
  exact sound.stored.follows positive

theorem blockList (positive : 0 < start) :
    client.heap.BlockList ((addresses start chunks).zip chunks) := by
  refine ⟨_, sound.follows positive, ?_⟩
  rw [map_prod_left_eq_zip, sound.stored.chunks_eq]

theorem eq_of_used (second : Sound start size other others)
    (used : usedBlocks start chunks = usedBlocks start others) : chunks = others :=
  sound.tiling.coalesced.eq_of_used second.tiling.coalesced
    (sound.tiling.extent.trans second.tiling.extent.symm) used

theorem kfree_two (positive : 0 < start) (fits : start + size < 2 ^ 64)
    (first : p ∈ client.live.map Prod.fst) (second : q ∈ client.live.map Prod.fst) (different : p ≠ q) :
    ∃ live after, Sound start size ⟨(client.heap.kfree p).kfree q, live⟩ after ∧
      usedBlocks start after = (usedBlocks start chunks).filter fun block =>
        block.1 + heapBlockSize ≠ p ∧ block.1 + heapBlockSize ≠ q := by
  obtain ⟨⟨_, request⟩, member, rfl⟩ := mem_map.mp first
  obtain ⟨⟨_, older⟩, otherMember, rfl⟩ := mem_map.mp second
  obtain ⟨middle, kept, once⟩ := sound.kfree positive fits (perm_cons_erase member)
  have stays := (mem_erase_of_ne fun same => different (congrArg Prod.fst same.symm)).mpr otherMember
  obtain ⟨after, later, twice⟩ := kept.kfree positive fits (perm_cons_erase stays)
  refine ⟨_, after, later, ?_⟩
  rw [twice, once, filter_filter]
  exact filter_congr fun block _ => by simp [Bool.and_comm]

end Sound

theorem Exact.kfree_all (exact : Exact start size client chunks) (positive : 0 < start) (fits : start + size < 2 ^ 64)
    (order : List Nat) (all : order.Perm (client.live.map Prod.fst)) :
    ∃ after, Exact start size ⟨order.foldl Heap.kfree client.heap, []⟩ after := by
  induction order generalizing client chunks with
  | nil =>
    have empty : client.live = [] := by simpa using all
    obtain ⟨heap, live⟩ := client
    cases empty
    exact ⟨chunks, exact⟩
  | cons ptr rest ih =>
    obtain ⟨⟨_, request⟩, member, rfl⟩ := mem_map.mp (all.mem_iff.mp mem_cons_self)
    have held := perm_cons_erase member
    obtain ⟨middle, kept⟩ := exact.kfree positive fits held
    exact ih kept ((perm_cons _).mp (all.trans (held.map Prod.fst)))

end HeapClient

section Runs

variable (low : 16 < start) (room : heapBlockSize < size) (fits : start + size < 2 ^ 64)
  (run : Run HeapStep ⟨Heap.heapInit memory start size, []⟩ trace client)
include low room fits run

/-- Two pointers may be freed in either order, and after every pointer has been
freed, in any order, the heap is as `heap_init` left it. -/
theorem heap_run_frees_commute :
    (∀ p ∈ client.live.map Prod.fst, ∀ q ∈ client.live.map Prod.fst, p ≠ q →
      ∃ items, ((client.heap.kfree p).kfree q).BlockList items ∧
        ((client.heap.kfree q).kfree p).BlockList items) ∧
    ∀ order : List Nat, order.Perm (client.live.map Prod.fst) →
      ((Heap.heapInit memory start size).BlockList [(start, ⟨size - heapBlockSize, true⟩)] ∧
        (order.foldl Heap.kfree client.heap).BlockList [(start, ⟨size - heapBlockSize, true⟩)]) := by
  obtain ⟨chunks, exact⟩ := heap_run_exact low room fits run
  have positive : 0 < start := by omega
  constructor
  · intro p first q second different
    obtain ⟨_, after, sound, used⟩ := exact.kfree_two positive fits first second different
    obtain ⟨_, others, reversed, same⟩ :=
      exact.kfree_two positive fits second first different.symm
    have equal : after = others := by
      refine sound.eq_of_used reversed (used.trans (Eq.trans ?_ same.symm))
      exact filter_congr fun block _ => by simp [Bool.and_comm]
    subst equal
    exact ⟨_, sound.blockList positive, reversed.blockList positive⟩
  · intro order all
    have initial := HeapClient.initial_sound memory room fits
    obtain ⟨after, freed⟩ := exact.kfree_all positive fits order all
    have none : usedBlocks start after = [] :=
      eq_nil_iff_forall_not_mem.mpr fun block member => by simpa using freed.held block member
    have single := freed.toSound.eq_of_used initial (none.trans (by simp [usedBlocks]))
    subst single
    exact ⟨initial.blockList positive, freed.blockList positive⟩

/-- Only requests within 7 bytes of 2^64, which are rounded up to 0, can be served
with too small a block. -/
theorem heap_run_adequate_iff (follows : Heap.Follows client.heap.blocks client.heap.freeList path)
    (positive : 0 < request) (word : request < 2 ^ 64) :
    client.heap.Adequate path request ↔
      request ≤ 2 ^ 64 - 8 ∨ ∀ addr ∈ path, (client.heap.blocks addr).free = false := by
  obtain ⟨chunks, exact⟩ := heap_run_exact low room fits run
  obtain rfl := follows.unique (exact.follows (by omega))
  have fitting := @exact.stored.forall_fits
  constructor
  · intro adequate
    by_contra neither
    obtain ⟨large, used⟩ := not_or.mp neither
    obtain ⟨ptr, after, returned⟩ := exact.kmalloc_returns (by omega) request
    have unfit : ∀ chunk ∈ chunks, ¬chunk.Fits ((request + 7) / 8 * 8) := by
      intro chunk member fits
      obtain ⟨before, behind, shape⟩ := append_of_mem member
      have bounds := (shape ▸ block_middle start : Block _ _ _ chunks).bounds
      have := fits.2
      rw [exact.tiling.extent] at bounds
      omega
    have null := (adequate _ _ _ returned).2.1.mpr ((fitting _).mpr unfit)
    rcases exact.kmalloc low fits returned with ⟨-, -, none⟩ | ⟨nonnull, -⟩
    · refine used fun addr member => ?_
      rw [Heap.alignSize_large (by omega) word] at none
      have := (fitting _).mpr (none positive) addr member
      simpa using this
    · exact nonnull null
  · intro condition fuel ptr after returned
    rcases exact.kmalloc low fits returned with
      ⟨rfl, rfl, none⟩ | ⟨nonnull, ⟨chunk, member, fit⟩, later, sound, -⟩
    · refine ⟨by simp, ⟨fun _ => ?_, fun _ => rfl⟩, fun _ => rfl⟩
      rcases condition with small | used
      · rw [Heap.alignSize_small small] at none
        exact (fitting _).mpr (none positive)
      · intro addr member free
        rw [used addr member] at free
        exact absurd free.1 (by decide)
    · rcases condition with small | used
      · rw [Heap.alignSize_small small] at fit
        exact ⟨fun _ => (sound.served mem_cons_self).room small,
          ⟨fun null => absurd null nonnull, fun none => absurd fit ((fitting _).mp none chunk member)⟩,
          fun null => absurd null nonnull⟩
      · refine absurd fit ((fitting _).mp (fun addr found free => ?_) chunk member)
        rw [used addr found] at free
        exact absurd free.1 (by decide)

end Runs

theorem heap_run_frees_commute_small_region : ∃ client, Run HeapStep
      ⟨Heap.heapInit (fun _ => ⟨0, 0, 0, false, 0⟩) 4096 256, []⟩ [.kmalloc 20, .kmalloc 8] client ∧
    client.live = [(4200, 8), (4136, 20)] ∧
    ∃ items, ((client.heap.kfree 4136).kfree 4200).BlockList items ∧
      ((client.heap.kfree 4200).kfree 4136).BlockList items := by
  have first : Run HeapStep ⟨Heap.heapInit (fun _ => ⟨0, 0, 0, false, 0⟩) 4096 256, []⟩
      [.kmalloc 20] _ :=
    Run.nil.snoc (.kmalloc (by decide)
      (show Heap.kmalloc _ 2 20 = some (4136, _) from rfl) (by decide))
  have run := first.snoc (.kmalloc (by decide)
      (show Heap.kmalloc _ 3 8 = some (4200, _) from rfl) (by decide))
  have commute := (heap_run_frees_commute (by decide) (by decide) (by decide) run).1
  exact ⟨_, run, rfl, commute 4136 (by simp) 4200 (by simp) (by decide)⟩

theorem heap_run_adequate_fresh : Heap.Adequate
    (Heap.heapInit (fun _ => ⟨0, 0, 0, false, 0⟩) 4096 256) [4096] 20 :=
  (heap_run_adequate_iff (by decide) (by decide) (by decide) .nil
    (by simp [Heap.Follows, Heap.heapInit]) (by decide) (by decide)).mpr (.inl (by decide))

/-- A request of 2^64 - 1 bytes gets a block of no bytes at all. -/
theorem heap_largest_request_gets_empty_block : ∃ after,
    (Heap.heapInit (fun _ => ⟨0, 0, 0, false, 0⟩) 4096 256).kmalloc 2 (2 ^ 64 - 1) =
      some (4136, after) ∧ after.payload 4136 = 0 ∧
    ¬Heap.Adequate (Heap.heapInit (fun _ => ⟨0, 0, 0, false, 0⟩) 4096 256) [4096] (2 ^ 64 - 1) := by
  have returned : (Heap.heapInit (fun _ => ⟨0, 0, 0, false, 0⟩) 4096 256).kmalloc 2 (2 ^ 64 - 1) =
      some (4136, _) := rfl
  refine ⟨_, returned, rfl, fun adequate => ?_⟩
  have room := (adequate _ _ _ returned).1 (by decide)
  exact absurd room (by decide)

end Rucix.Memory
