import Rucix.Memory.Heap.Tiling

namespace Rucix.Memory

open Rucix.Data Layout List

namespace Heap

variable {heap : Heap}

/-- `path` is the list of addresses met by following `next` from `addr` to
NULL. -/
def Follows (blocks : Nat → HeapBlock) : Nat → List Nat → Prop
  | addr, [] => addr = 0
  | addr, first :: rest => addr = first ∧ first ≠ 0 ∧ Follows blocks (blocks first).next rest

/-- What the tiling of a region means for the linked headers themselves. -/
structure Tiles (heap : Heap) (start size : Nat) (path : List Nat) : Prop where
  reached : Follows heap.blocks heap.freeList path
  first : path.head? = some start
  adjacent : path.IsChain fun left right =>
    (heap.blocks left).next = right ∧ right = left + heapBlockSize + (heap.blocks left).size ∧
      (heap.blocks right).prev = left ∧
      ¬((heap.blocks left).free = true ∧ (heap.blocks right).free = true)
  last : ∀ addr ∈ path.getLast?, addr + heapBlockSize + (heap.blocks addr).size = start + size

def payload (heap : Heap) (ptr : Nat) : Nat := (heap.blocks (ptr - heapBlockSize)).size

theorem alignSize_eq (size : Nat) : alignSize size = wrap 64 (size + 7) / 8 * 8 := by
  have mask : 2 ^ 64 - 8 = (2 ^ 61 - 1) <<< 3 := by decide
  have below : wrap 64 (size + 7) / 2 ^ 3 % 2 ^ 61 = wrap 64 (size + 7) / 2 ^ 3 := by
    have := wrap_lt 64 (size + 7)
    omega
  rw [alignSize, mask, land_block_mask, below]
  rfl

theorem alignSize_multiple (size : Nat) : alignSize size % 8 = 0 := by
  rw [alignSize_eq, Nat.mul_mod_left]

theorem le_alignSize (bounded : size ≤ 2 ^ 64 - 8) : size ≤ alignSize size := by
  rw [alignSize_eq, wrap_of_lt (by omega)]
  omega

end Heap

namespace Layout

variable {blocks : Nat → HeapBlock} {prev : Nat}

def addresses : Nat → List Chunk → List Nat
  | _, [] => []
  | start, chunk :: rest => start :: addresses (start + heapBlockSize + chunk.size) rest

theorem addresses_length (start : Nat) : (addresses start chunks).length = chunks.length := by
  induction chunks generalizing start with
  | nil => rfl
  | cons chunk rest ih => simp [addresses, ih]

theorem mem_addresses : addr ∈ addresses start chunks ↔ ∃ chunk, Block addr chunk start chunks := by
  induction chunks generalizing start with
  | nil => simp [addresses, Block]
  | cons first rest ih => simp [addresses, Block, ih, exists_or]

theorem Stored.follows (stored : Stored blocks prev start chunks 0) (positive : 0 < start) :
    Heap.Follows blocks (link start 0 chunks) (addresses start chunks) := by
  induction chunks generalizing prev start with
  | nil => rfl
  | cons chunk rest ih =>
    refine ⟨rfl, by omega, ?_⟩
    rw [stored.1]
    exact ih stored.2 (by omega)

theorem Stored.adjacent (stored : Stored blocks prev start chunks 0) (coalesced : Coalesced chunks) :
    (addresses start chunks).IsChain fun left right =>
      (blocks left).next = right ∧ right = left + heapBlockSize + (blocks left).size ∧
        (blocks right).prev = left ∧ ¬((blocks left).free = true ∧ (blocks right).free = true) := by
  induction chunks generalizing prev start with
  | nil => exact isChain_nil
  | cons chunk rest ih =>
    obtain ⟨separate, remaining⟩ := (coalesced_cons ..).mp coalesced
    refine isChain_cons.mpr ⟨?_, ih stored.2 remaining⟩
    cases rest with
    | nil => simp [addresses]
    | cons next behind =>
      intro right first
      cases first
      rw [stored.1, stored.2.1]
      exact ⟨rfl, rfl, rfl, separate next rfl⟩

theorem Stored.last_extent (stored : Stored blocks prev start chunks 0) :
    ∀ addr ∈ (addresses start chunks).getLast?,
      addr + heapBlockSize + (blocks addr).size = finish start chunks := by
  induction chunks generalizing prev start with
  | nil => simp [addresses]
  | cons chunk rest ih =>
    intro addr final
    cases rest with
    | nil =>
      have here : start = addr := by simpa [addresses] using final
      rw [← here, stored.1]
      rfl
    | cons next behind =>
      exact ih stored.2 addr final

theorem Tiling.tiles {heap : Heap} (tiling : Tiling start size chunks) (stored : Stored heap.blocks 0 start chunks 0)
    (origin : heap.freeList = start) (positive : 0 < start) : heap.Tiles start size (addresses start chunks) where
  reached := by
    have pointer : link start 0 chunks = start := by
      obtain ⟨first, rest, rfl⟩ := exists_cons_of_ne_nil tiling.nonempty
      rfl
    have follows := stored.follows positive
    rwa [pointer, ← congrArg (Heap.Follows heap.blocks · _) origin] at follows
  first := by
    obtain ⟨first, rest, rfl⟩ := exists_cons_of_ne_nil tiling.nonempty
    rfl
  adjacent := stored.adjacent tiling.coalesced
  last := tiling.extent ▸ stored.last_extent

end Layout

namespace HeapClient

variable {after : HeapClient}

/-- The heap stores a tiling, and every outstanding allocation is a block in
use of it. -/
structure Sound (start size : Nat) (client : HeapClient) (chunks : List Chunk) : Prop where
  origin : client.heap.freeList = start
  stored : Stored client.heap.blocks 0 start chunks 0
  tiling : Tiling start size chunks
  live : ∀ ptr request, (ptr, request) ∈ client.live → ∃ addr chunk,
    ptr = addr + heapBlockSize ∧ Block addr chunk start chunks ∧ chunk.free = false ∧
      (request ≤ 2 ^ 64 - 8 → request ≤ chunk.size)
  distinct : (client.live.map Prod.fst).Nodup

structure Exact (start size : Nat) (client : HeapClient) (chunks : List Chunk) : Prop extends
    Sound start size client chunks where
  held : ∀ block ∈ usedBlocks start chunks, block.1 + heapBlockSize ∈ client.live.map Prod.fst

/-- What a client may rely on for the allocation `ptr` of `request` bytes when
the headers lie at `path`. -/
structure Served (start size : Nat) (client : HeapClient) (path : List Nat) (ptr request : Nat) :
    Prop where
  header : ptr - heapBlockSize ∈ path ∧ (client.heap.blocks (ptr - heapBlockSize)).free = false
  inside : start + heapBlockSize ≤ ptr ∧ ptr + client.heap.payload ptr ≤ start + size
  clearOfHeaders : ∀ addr ∈ path,
    addr + heapBlockSize ≤ ptr ∨ ptr + client.heap.payload ptr ≤ addr
  disjoint : ∀ other request, (other, request) ∈ client.live → other ≠ ptr →
    ptr + client.heap.payload ptr ≤ other ∨ other + client.heap.payload other ≤ ptr
  room : request ≤ 2 ^ 64 - 8 → request ≤ client.heap.payload ptr
  aligned : (ptr - (start + heapBlockSize)) % 8 = 0

theorem initial_sound (memory : Nat → HeapBlock) (room : heapBlockSize < size) (fits : start + size < 2 ^ 64) :
    Sound start size ⟨Heap.heapInit memory start size, []⟩ [⟨size - heapBlockSize, true⟩] where
  origin := rfl
  stored := by
    have payload : wrapSub 64 size heapBlockSize = size - heapBlockSize :=
      wrapSub_of_le (by omega) (by omega)
    refine ⟨?_, trivial⟩
    simp only [Heap.heapInit, Function.update_self, payload]
    rfl
  tiling := tiling_single (by omega)
  live := by simp
  distinct := nodup_nil

variable (sound : Sound start size client chunks)
include sound

theorem Sound.pointer : client.heap.freeList = link start 0 chunks := by
  obtain ⟨first, rest, rfl⟩ := exists_cons_of_ne_nil sound.tiling.nonempty
  exact sound.origin

theorem Sound.claim (low : 16 < start) (fits : start + size < 2 ^ 64) (shape : chunks = before ++ chunk :: behind)
    (free : chunk.Fits alignedSize) (multiple : alignedSize % 8 = 0)
    (enough : request ≤ 2 ^ 64 - 8 → request ≤ alignedSize) :
    Sound start size
      { heap := client.heap.claim (finish start before) alignedSize
        live := (finish start before + heapBlockSize, request) :: client.live }
      (before ++ (chunk.carve alignedSize ++ behind)) := by
  subst shape
  have bounded : finish start (before ++ chunk :: behind) < 2 ^ 64 := by
    rw [sound.tiling.extent]
    exact fits
  obtain ⟨claimed, large, carved⟩ := @usedBlocks_carve start alignedSize before behind chunk free
  refine ⟨?_, Heap.claim_stored sound.stored low bounded free, sound.tiling.carve free multiple,
    ?_, ?_⟩
  · rw [Heap.claim_freeList]
    exact sound.origin
  · intro ptr older member
    rcases mem_cons.mp member with new | old
    · cases new
      refine ⟨_, ⟨claimed, false⟩, rfl, mem_usedBlocks.mp ?_, rfl,
        fun small => Nat.le_trans (enough small) large⟩
      rw [carved]
      exact mem_append_right _ mem_cons_self
    · obtain ⟨addr, held, rfl, block, used, served⟩ := sound.live ptr older old
      refine ⟨addr, ⟨held.size, false⟩, rfl, mem_usedBlocks.mp ?_, rfl, served⟩
      have kept := block.used used
      rw [usedBlocks_append, usedBlocks, if_pos free.1, mem_append] at kept
      rw [carved, mem_append]
      tauto
  · refine nodup_cons.mpr ⟨?_, sound.distinct⟩
    intro member
    obtain ⟨⟨ptr, older⟩, old, same⟩ := mem_map.mp member
    obtain ⟨addr, held, rfl, block, used, -⟩ := sound.live ptr older old
    exact ne_of_used (block.used used) free.1 (Nat.add_right_cancel same)

theorem Sound.kmalloc {heap : Heap} (low : 16 < start) (fits : start + size < 2 ^ 64)
    (returned : client.heap.kmalloc fuel request = some (ptr, heap)) :
    (ptr = 0 ∧ heap = client.heap ∧
      (0 < request → ∀ chunk ∈ chunks, ¬chunk.Fits (Heap.alignSize request))) ∨
      (ptr ≠ 0 ∧ (∃ chunk ∈ chunks, chunk.Fits (Heap.alignSize request)) ∧
        ∃ after, Sound start size ⟨heap, (ptr, request) :: client.live⟩ after ∧
          ∀ block ∈ usedBlocks start after,
            block.1 + heapBlockSize = ptr ∨ block ∈ usedBlocks start chunks) := by
  rw [Heap.kmalloc] at returned
  split at returned
  · rename_i zero
    cases returned
    exact .inl ⟨rfl, rfl, fun positive => absurd zero (Nat.ne_of_gt positive)⟩
  · rw [sound.pointer] at returned
    rcases Heap.kmallocFrom_cases sound.stored (by omega) fuel with
      ⟨stopped, -⟩ | ⟨failed, none⟩ | ⟨before, chunk, behind, claimed, shape, free⟩
    · cases stopped.symm.trans returned
    · cases failed.symm.trans returned
      exact .inl ⟨rfl, rfl, fun _ => none⟩
    · cases claimed.symm.trans returned
      have bounds := (shape ▸ block_middle start : Block _ _ _ chunks).bounds
      rw [sound.tiling.extent] at bounds
      rw [wrap_of_lt (by omega)]
      refine .inr ⟨by omega, ⟨chunk, by simp [shape], free⟩, _,
        sound.claim low fits shape free (Heap.alignSize_multiple request) Heap.le_alignSize,
        fun block member => ?_⟩
      obtain ⟨claimed, -, carved⟩ := @usedBlocks_carve start _ before behind chunk free
      rw [carved, mem_append, mem_cons] at member
      rw [shape, usedBlocks_append, usedBlocks, if_pos free.1, mem_append]
      rcases member with early | rfl | late
      · exact .inr (.inl early)
      · exact .inl rfl
      · exact .inr (.inr late)

theorem Sound.kfree (positive : 0 < start) (fits : start + size < 2 ^ 64)
    (held : client.live.Perm ((ptr, request) :: others)) :
    ∃ after, Sound start size ⟨client.heap.kfree ptr, others⟩ after ∧
      usedBlocks start after = (usedBlocks start chunks).filter (·.1 + heapBlockSize ≠ ptr) := by
  obtain ⟨addr, chunk, rfl, block, -, -⟩ :=
    sound.live ptr request (held.mem_iff.mpr mem_cons_self)
  obtain ⟨before, behind, rfl, rfl⟩ := block.split
  have bounded : finish start (before ++ chunk :: behind) < 2 ^ 64 := by
    rw [sound.tiling.extent]
    exact fits
  have distinct := (held.map Prod.fst).nodup_iff.mp sound.distinct
  rw [map_cons, nodup_cons] at distinct
  have released := usedBlocks_release start before chunk behind
  refine ⟨_, ⟨?_, Heap.kfree_stored sound.stored positive bounded, sound.tiling.release, ?_,
    distinct.2⟩, ?_⟩
  · rw [Heap.kfree_freeList]
    exact sound.origin
  · intro other older member
    obtain ⟨addr, kept, rfl, stays, used, served⟩ :=
      sound.live other older (held.mem_iff.mpr (mem_cons_of_mem _ member))
    refine ⟨addr, ⟨kept.size, false⟩, rfl, mem_usedBlocks.mp ?_, rfl, served⟩
    rw [released, mem_filter]
    refine ⟨stays.used used, decide_eq_true fun same => ?_⟩
    exact distinct.1 (mem_map.mpr ⟨_, member, congrArg (· + heapBlockSize) same⟩)
  · simpa using released

omit sound in
theorem Exact.kfree (exact : Exact start size client chunks) (positive : 0 < start) (fits : start + size < 2 ^ 64)
    (held : client.live.Perm ((ptr, request) :: others)) :
    ∃ after, Exact start size ⟨client.heap.kfree ptr, others⟩ after := by
  obtain ⟨later, kept, used⟩ := exact.toSound.kfree positive fits held
  refine ⟨later, kept, fun block member => ?_⟩
  rw [used, mem_filter] at member
  have owned := (held.map Prod.fst).mem_iff.mp (exact.held block member.1)
  rcases mem_cons.mp owned with freed | other
  · exact absurd freed (of_decide_eq_true member.2)
  · exact other

omit sound in
/-- Every step keeps the heap sound, and only what clients hold in use. -/
theorem Exact.step (exact : Exact start size client chunks) (low : 16 < start) (fits : start + size < 2 ^ 64)
    (stepped : HeapStep client op after) : ∃ chunks, Exact start size after chunks := by
  cases stepped with
  | kmallocNull _ returned =>
    rcases exact.kmalloc low fits returned with ⟨-, rfl, -⟩ | ⟨nonnull, -⟩
    · exact ⟨chunks, exact⟩
    · exact absurd rfl nonnull
  | kmalloc _ returned success =>
    rcases exact.kmalloc low fits returned with ⟨null, -⟩ | ⟨-, -, later, served, used⟩
    · exact absurd null success
    · refine ⟨later, served, fun block member => ?_⟩
      rcases used block member with rfl | old
      · exact mem_cons_self
      · exact mem_cons_of_mem _ (exact.held block old)
  | kfreeNull => exact ⟨chunks, exact⟩
  | kfree held => exact exact.kfree (by omega) fits held

theorem Sound.payload_eq (block : Block addr chunk start chunks) :
    client.heap.payload (addr + heapBlockSize) = chunk.size := by
  exact (sound.stored.header_at block).1

theorem Sound.served (member : (ptr, request) ∈ client.live) :
    Served start size client (addresses start chunks) ptr request := by
  obtain ⟨addr, chunk, rfl, block, used, large⟩ := sound.live ptr request member
  have payload := sound.payload_eq block
  have bounds := block.bounds
  rw [sound.tiling.extent] at bounds
  refine ⟨?_, ?_, ?_, ?_, ?_, ?_⟩
  · exact ⟨mem_addresses.mpr ⟨chunk, block⟩, (sound.stored.header_at block).2.1.trans used⟩
  · omega
  · intro other header
    obtain ⟨neighbour, second⟩ := mem_addresses.mp header
    by_cases same : addr = other
    · omega
    · have := block.separate second same
      omega
  · intro other older live different
    obtain ⟨second, neighbour, rfl, found, -, -⟩ := sound.live other older live
    rw [sound.payload_eq found]
    have := block.separate found fun same => different (by rw [same])
    omega
  · rwa [payload]
  · have := sound.tiling.aligned _ _ block
    omega

theorem Sound.kmalloc_returns (positive : 0 < start) (request : Nat) :
    ∃ ptr heap, client.heap.kmalloc (chunks.length + 1) request = some (ptr, heap) := by
  rw [Heap.kmalloc]
  split
  · exact ⟨_, _, rfl⟩
  · rw [sound.pointer]
    rcases Heap.kmallocFrom_cases sound.stored positive (chunks.length + 1) with
      ⟨-, short⟩ | ⟨failed, -⟩ | ⟨before, chunk, behind, claimed, -⟩
    · exact absurd short (Nat.not_succ_le_self _)
    · exact ⟨_, _, failed⟩
    · exact ⟨_, _, claimed⟩

end HeapClient

section Runs

variable (low : 16 < start) (room : heapBlockSize < size) (fits : start + size < 2 ^ 64)
  (run : Run HeapStep ⟨Heap.heapInit memory start size, []⟩ trace client)
include low room fits run

theorem heap_run_exact : ∃ chunks, HeapClient.Exact start size client chunks := by
  apply run.invariant
  · exact ⟨_, HeapClient.initial_sound memory room fits, by simp [usedBlocks]⟩
  · rintro before op after ⟨chunks, exact⟩ stepped
    exact exact.step low fits stepped

/-- The block list tiles the region, no two free blocks touch, every outstanding
allocation has its payload to itself, and the next call returns. -/
theorem heap_run_tiles :
    ∃ path, client.heap.Tiles start size path ∧
      (client.live.map Prod.fst).Nodup ∧
      (∀ ptr request, (ptr, request) ∈ client.live →
        HeapClient.Served start size client path ptr request) ∧
      ∀ request, ∃ ptr heap, client.heap.kmalloc (path.length + 1) request = some (ptr, heap) := by
  obtain ⟨chunks, exact⟩ := heap_run_exact low room fits run
  refine ⟨addresses start chunks, exact.tiling.tiles exact.stored exact.origin (by omega),
    exact.distinct, fun ptr request member => exact.served member, ?_⟩
  rw [addresses_length]
  exact exact.kmalloc_returns (by omega)

end Runs

def smallRegion : List HeapOp := [.kmalloc 20, .kmalloc 8, .kfree 4136]

theorem heap_run_tiles_small_region :
    ∃ client path, Run HeapStep ⟨Heap.heapInit (fun _ => ⟨0, 0, 0, false, 0⟩) 4096 256, []⟩
        smallRegion client ∧
      client.live = [(4200, 8)] ∧ client.heap.Tiles 4096 256 path ∧
      HeapClient.Served 4096 256 client path 4200 8 := by
  have first : Run HeapStep ⟨Heap.heapInit (fun _ => ⟨0, 0, 0, false, 0⟩) 4096 256, []⟩
      [.kmalloc 20] _ :=
    Run.nil.snoc (.kmalloc (by decide)
      (show Heap.kmalloc _ 2 20 = some (4136, _) from rfl) (by decide))
  have second := first.snoc (.kmalloc (by decide)
      (show Heap.kmalloc _ 3 8 = some (4200, _) from rfl) (by decide))
  have run := second.snoc (.kfree (List.Perm.swap (4136, 20) (4200, 8) []))
  obtain ⟨path, tiles, -, served, -⟩ := heap_run_tiles (by decide) (by decide) (by decide) run
  exact ⟨_, path, run, rfl, tiles, served 4200 8 (by simp)⟩

end Rucix.Memory
