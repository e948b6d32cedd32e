import Rucix.Memory.Pmm.FirstFit

namespace Rucix.Memory

open Rucix.Data Finset Bitmap

namespace Pmm

variable {pmm after : Pmm} {addr count : Nat}

def freeFrames (pmm : Pmm) : Finset Nat := pmm.bitmap.clearBelow pmm.totalPages

/-- Frame 0 is reserved, the search hint is in range and the byte counter agrees with the
bitmap.  A frame has a 64-bit byte address. -/
structure Consistent (pmm : Pmm) : Prop where
  reserved : pmm.pmmTestBit 0 = true
  hint : pmm.lastFreeIndex ≤ pmm.totalPages
  addressable : pmm.totalPages ≤ 2 ^ 52
  accounting : pmm.freeMemory = pageSize * pmm.freeFrames.card

theorem free_ne_zero (reserved : pmm.pmmTestBit 0 = true) (free : bit ∈ pmm.freeFrames) : bit ≠ 0 := by
  rintro rfl
  cases reserved.symm.trans (mem_clearBelow.mp free).2

theorem freeFrames_card_lt (reserved : pmm.pmmTestBit 0 = true) (addressable : pmm.totalPages ≤ 2 ^ 52) :
    pmm.freeFrames.card < 2 ^ 52 := by
  have subset : pmm.freeFrames ⊆ Ico 1 pmm.totalPages := fun bit free =>
    mem_Ico.mpr ⟨Nat.pos_of_ne_zero (free_ne_zero reserved free), (mem_clearBelow.mp free).1⟩
  have bounded := card_le_card subset
  rw [Nat.card_Ico] at bounded
  omega

/-- The two halves of the search cover every frame, so the hint never hides a
free one. -/
theorem pmmFindFirstFree_cases (hint : pmm.lastFreeIndex ≤ pmm.totalPages) :
    pmm.freeFrames = ∅ ∧ pmm.pmmFindFirstFree = (none, pmm) ∨
    ∃ bit ∈ pmm.freeFrames, pmm.pmmFindFirstFree = (some bit, { pmm with lastFreeIndex := bit }) := by
  rw [pmmFindFirstFree]
  cases upperHalf : pmm.bitmap.firstClear pmm.lastFreeIndex (pmm.totalPages - pmm.lastFreeIndex) with
  | some bit =>
    obtain ⟨upper, free⟩ := firstClear_some upperHalf
    exact .inr ⟨bit, mem_clearBelow.mpr ⟨by omega, free⟩, rfl⟩
  | none =>
    cases lowerHalf : pmm.bitmap.firstClear 0 pmm.lastFreeIndex with
    | some bit =>
      obtain ⟨upper, free⟩ := firstClear_some lowerHalf
      exact .inr ⟨bit, mem_clearBelow.mpr ⟨by omega, free⟩, rfl⟩
    | none =>
      refine .inl ⟨eq_empty_of_forall_notMem fun frame member => ?_, rfl⟩
      obtain ⟨below, free⟩ := mem_clearBelow.mp member
      have used : pmm.bitmap.test frame = true := by
        rcases Nat.lt_or_ge frame pmm.lastFreeIndex with lower | upper
        · exact firstClear_none lowerHalf (Nat.zero_le _) (by omega)
        · exact firstClear_none upperHalf upper (by omega)
      cases free.symm.trans used

/-- Frame 0 is never found, so that one search is enough. -/
theorem Consistent.pmmAllocPage_cases (consistent : pmm.Consistent) :
    pmm.freeFrames = ∅ ∧ pmm.pmmAllocPage (fuel + 1) = some (0, pmm) ∨
    ∃ bit, pmm.Fits 1 bit ∧ pmm.pmmAllocPage (fuel + 1) = some ({ pmm with lastFreeIndex := bit }.grant 1 bit) := by
  rw [pmmAllocPage]
  rcases pmmFindFirstFree_cases consistent.hint with ⟨full, found⟩ | ⟨bit, free, found⟩
  · exact .inl ⟨full, by rw [found]⟩
  · obtain ⟨below, clear⟩ := mem_clearBelow.mp free
    refine .inr ⟨bit, ⟨below, fun frame lower upper => Nat.le_antisymm lower (Nat.le_of_lt_succ upper) ▸ clear⟩, ?_⟩
    rw [found]
    cases bit with
    | zero => exact absurd rfl (free_ne_zero consistent.reserved free)
    | succ bit => rfl

end Pmm

namespace PmmClient

variable {client after : PmmClient}

/-- The allocator is consistent and every held frame is marked used. -/
structure Sound (client : PmmClient) : Prop where
  consistent : client.pmm.Consistent
  heldUsed : ∀ frame ∈ client.held, frame ≠ 0 ∧ frame < client.pmm.totalPages ∧
    client.pmm.pmmTestBit frame = true

variable (sound : client.Sound)
include sound

theorem Sound.disjoint_free (free : frames ⊆ client.pmm.freeFrames) : Disjoint frames client.held := by
  rw [disjoint_left]
  intro frame member held
  have used := (sound.heldUsed frame held).2.2
  simp [Pmm.pmmTestBit, (mem_clearBelow.mp (free member)).2] at used

theorem Sound.granted (positive : 1 ≤ count) (fits : client.pmm.Fits count first) :
    Ico first (first + count) ⊆ client.pmm.freeFrames ∧ wrap 64 (first * pageSize) ≠ 0 ∧
      framesOf (wrap 64 (first * pageSize)) count = Ico first (first + count) := by
  have addressable := sound.consistent.addressable
  have inside := fits.1
  have free : Ico first (first + count) ⊆ client.pmm.freeFrames := by
    intro frame member
    obtain ⟨lower, upper⟩ := mem_Ico.mp member
    exact mem_clearBelow.mpr ⟨by omega, fits.2 frame lower upper⟩
  have nonzero := Pmm.free_ne_zero sound.consistent.reserved (free (mem_Ico.mpr ⟨Nat.le_refl first, by omega⟩))
  rw [wrap_of_lt (by simp only [pageSize]; omega), framesOf, Nat.mul_div_cancel _ (by decide)]
  exact ⟨free, by simp only [pageSize]; omega, rfl⟩

theorem Sound.grant {hint : Nat} {pmm : Pmm} (inRange : hint ≤ client.pmm.totalPages) (positive : 1 ≤ count)
    (fits : client.pmm.Fits count first)
    (same : { client.pmm with lastFreeIndex := hint }.grant count first = (addr, pmm)) :
    Sound { pmm, held := if addr = 0 then client.held else client.held ∪ framesOf addr count } := by
  obtain ⟨free, nonzero, window⟩ := sound.granted positive fits
  obtain ⟨⟨reserved, -, addressable, accounting⟩, heldUsed⟩ := sound
  cases same
  rw [if_neg nonzero, window]
  refine ⟨⟨?_, inRange, addressable, ?_⟩, fun frame member => ?_⟩
  · rw [Pmm.pmmTestBit] at reserved
    simp [Pmm.pmmTestBit, test_setRange, reserved]
  · have card := card_sdiff_add_card_eq_card free
    have bounded := Pmm.freeFrames_card_lt reserved addressable
    rw [Nat.card_Ico] at card
    change wrapSub 64 client.pmm.freeMemory (wrap 64 (count * pageSize)) =
      pageSize * ((client.pmm.bitmap.setRange first count).clearBelow client.pmm.totalPages).card
    rw [clearBelow_setRange, accounting, wrap_of_lt (by simp only [pageSize]; omega),
      wrapSub_of_le (by simp only [pageSize]; omega) (by simp only [pageSize]; omega)]
    change _ = pageSize * (client.pmm.freeFrames \ Ico first (first + count)).card
    simp only [pageSize]
    omega
  · rcases mem_union.mp member with held | fresh
    · obtain ⟨positive, inside, used⟩ := heldUsed frame held
      rw [Pmm.pmmTestBit] at used
      exact ⟨positive, inside, by simp [Pmm.pmmTestBit, test_setRange, used]⟩
    · exact ⟨Pmm.free_ne_zero reserved (free fresh), (mem_clearBelow.mp (free fresh)).1,
        by simp [Pmm.pmmTestBit, test_setRange, mem_Ico.mp fresh]⟩

theorem Sound.freePages (owned : framesOf addr count ⊆ client.held) : Sound
      { pmm := client.pmm.pmmFreePages addr count, held := client.held \ framesOf addr count } := by
  have separate : Disjoint client.pmm.freeFrames (framesOf addr count) :=
    (sound.disjoint_free Subset.rfl).mono_right owned
  obtain ⟨⟨reserved, hint, addressable, accounting⟩, heldUsed⟩ := sound
  have enlarged : (client.pmm.pmmFreePages addr count).freeFrames =
      client.pmm.freeFrames ∪ framesOf addr count :=
    clearBelow_clearRange fun frame member => mem_range.mpr (heldUsed frame (owned member)).2.1
  have kept : ∀ frame ∉ framesOf addr count, client.pmm.pmmTestBit frame = true →
      (client.pmm.pmmFreePages addr count).pmmTestBit frame = true := by
    intro frame outside used
    rw [Pmm.pmmTestBit] at used
    have apart : ¬(addr / pageSize ≤ frame ∧ frame < addr / pageSize + count ∧ frame < client.pmm.totalPages) :=
      fun inside => outside (mem_Ico.mpr ⟨inside.1, inside.2.1⟩)
    rw [Pmm.pmmTestBit, Pmm.pmmFreePages, test_clearRange, decide_eq_false apart, used]
    rfl
  have zeroUsed := kept 0 (fun member => (heldUsed 0 (owned member)).1 rfl) reserved
  have card := card_union_of_disjoint separate
  have bounded := Pmm.freeFrames_card_lt zeroUsed addressable
  have size : (framesOf addr count).card = count := by simp [framesOf]
  rw [enlarged] at bounded
  refine ⟨⟨zeroUsed, ?_, addressable, ?_⟩, fun frame member => ?_⟩
  · simp only [Pmm.pmmFreePages]
    split <;> omega
  · rw [enlarged]
    simp only [Pmm.pmmFreePages]
    rw [accounting, wrap_of_lt (show count * pageSize < _ by simp only [pageSize]; omega),
      wrap_of_lt (by simp only [pageSize]; omega)]
    simp only [pageSize]
    omega
  · obtain ⟨held, outside⟩ := mem_sdiff.mp member
    obtain ⟨positive, inside, used⟩ := heldUsed frame held
    exact ⟨positive, inside, kept frame outside used⟩

theorem Sound.freePage (owned : framesOf addr 1 ⊆ client.held) :
    client.pmm.pmmFreePage addr = client.pmm.pmmFreePages addr 1 := by
  have inside := (sound.heldUsed _ (owned (mem_Ico.mpr ⟨Nat.le_refl _, Nat.lt_succ_self _⟩))).2.1
  have cleared : client.pmm.bitmap.clearRange client.pmm.totalPages (addr / pageSize) 1 =
      client.pmm.bitmap.clear (addr / pageSize) := if_pos inside
  rw [Pmm.pmmFreePage, Pmm.pmmFreePages, if_pos inside, cleared]
  rfl

theorem Sound.step (stepped : PmmStep client op after) : after.Sound := by
  have consistent := sound.consistent
  cases stepped with
  | @allocPage fuel addr after returned =>
    cases fuel with
    | zero => cases returned
    | succ fuel =>
      rcases consistent.pmmAllocPage_cases with ⟨-, same⟩ | ⟨first, fits, same⟩
      · cases same.symm.trans returned
        exact sound
      · exact sound.grant (Nat.le_of_succ_le fits.1) (Nat.le_refl 1) fits (Option.some.inj (same.symm.trans returned))
  | allocPages positive bounded returned =>
    have word : client.pmm.totalPages < 2 ^ 64 := Nat.lt_of_le_of_lt consistent.addressable (by decide)
    rcases Pmm.pmmAllocPages_cases word positive bounded with ⟨first, least, same⟩ | ⟨-, same⟩
    · exact sound.grant consistent.hint positive least.1 (same.symm.trans returned)
    · cases same.symm.trans returned
      exact sound
  | freePage owned => exact sound.freePage owned ▸ sound.freePages owned
  | freePages owned => exact sound.freePages owned

end PmmClient

/-- Every run from a consistent bitmap keeps the accounting, never hands out a
held frame, and finds a free frame whenever there is one. -/
theorem pmm_run_safe {start : Pmm} {trace : List PmmOp} {client : PmmClient} (consistent : start.Consistent)
    (run : Run PmmStep ⟨start, ∅⟩ trace client) :
    client.pmm.freeMemory = pageSize * client.pmm.freeFrames.card ∧
    (∀ fuel, ∃ addr after, client.pmm.pmmAllocPage (fuel + 2) = some (addr, after) ∧
      (addr = 0 ↔ client.pmm.freeFrames = ∅) ∧
      (addr ≠ 0 → framesOf addr 1 ⊆ client.pmm.freeFrames ∧
        Disjoint (framesOf addr 1) client.held)) ∧
    ∀ count addr after, 1 ≤ count → count ≤ client.pmm.totalPages →
      client.pmm.pmmAllocPages count = (addr, after) → addr ≠ 0 →
      framesOf addr count ⊆ client.pmm.freeFrames ∧ Disjoint (framesOf addr count) client.held := by
  have sound : client.Sound :=
    run.invariant ⟨consistent, by simp⟩ fun _ _ _ before stepped => before.step stepped
  refine ⟨sound.consistent.accounting, fun fuel => ?_, fun count addr after positive bounded returned success => ?_⟩
  · rcases sound.consistent.pmmAllocPage_cases with ⟨full, same⟩ | ⟨bit, fits, same⟩
    · exact ⟨0, _, same, by simp [full], fun nonzero => absurd rfl nonzero⟩
    · obtain ⟨free, nonzero, window⟩ := sound.granted (Nat.le_refl 1) fits
      refine ⟨_, _, same, ⟨fun zero => absurd zero nonzero, fun full => ?_⟩, fun _ => ?_⟩
      · simpa [full] using free (mem_Ico.mpr ⟨Nat.le_refl bit, Nat.lt_succ_self bit⟩)
      · exact window.symm ▸ ⟨free, sound.disjoint_free free⟩
  · have word : client.pmm.totalPages < 2 ^ 64 := Nat.lt_of_le_of_lt sound.consistent.addressable (by decide)
    rcases Pmm.pmmAllocPages_cases word positive bounded with ⟨first, least, same⟩ | ⟨-, same⟩ <;>
      cases same.symm.trans returned
    · obtain ⟨free, -, window⟩ := sound.granted positive least.1
      exact window.symm ▸ ⟨free, sound.disjoint_free free⟩
    · exact absurd rfl success

def threeFrames : Pmm where
  bitmap := fun _ => 1#8
  totalPages := 3
  freeMemory := 8192
  lastFreeIndex := 3

theorem threeFrames_consistent : threeFrames.Consistent := by
  constructor <;> decide

theorem pmm_run_safe_three_frames :
    ∃ client, Run PmmStep ⟨threeFrames, ∅⟩ [.allocPage, .freePage 4096, .allocPage] client ∧
      client.held = {1} ∧ client.pmm.freeMemory = pageSize * client.pmm.freeFrames.card := by
  have taken : Run PmmStep ⟨threeFrames, ∅⟩ [.allocPage] _ :=
    Run.nil.snoc (.allocPage (show Pmm.pmmAllocPage 2 _ = some (4096, _) from rfl))
  have returned : Run PmmStep ⟨threeFrames, ∅⟩ [.allocPage, .freePage 4096] _ :=
    taken.snoc (.freePage (by decide))
  have run : Run PmmStep ⟨threeFrames, ∅⟩ [.allocPage, .freePage 4096, .allocPage] _ :=
    returned.snoc (.allocPage (show Pmm.pmmAllocPage 2 _ = some (4096, _) from rfl))
  exact ⟨_, run, by decide, (pmm_run_safe threeFrames_consistent run).1⟩

namespace PmmClient

variable {client after : PmmClient}

def frames (client : PmmClient) : Finset Nat := client.pmm.freeFrames ∪ client.held

variable (sound : client.Sound)
include sound

theorem Sound.grant_frames {hint : Nat} {pmm : Pmm} (positive : 1 ≤ count) (fits : client.pmm.Fits count first)
    (same : { client.pmm with lastFreeIndex := hint }.grant count first = (addr, pmm)) :
    frames { pmm, held := if addr = 0 then client.held else client.held ∪ framesOf addr count } = client.frames := by
  obtain ⟨free, nonzero, window⟩ := sound.granted positive fits
  cases same
  change (client.pmm.bitmap.setRange first count).clearBelow client.pmm.totalPages ∪ _ = _
  rw [if_neg nonzero, window, clearBelow_setRange, union_comm client.held, ← union_assoc]
  exact congrArg (· ∪ client.held) (sdiff_union_of_subset free)

theorem Sound.freePages_frames (owned : framesOf addr count ⊆ client.held) :
    frames ⟨client.pmm.pmmFreePages addr count, client.held \ framesOf addr count⟩ = client.frames := by
  have enlarged : (client.pmm.pmmFreePages addr count).freeFrames =
      client.pmm.freeFrames ∪ framesOf addr count :=
    clearBelow_clearRange fun frame member => mem_range.mpr (sound.heldUsed frame (owned member)).2.1
  rw [frames, enlarged, union_assoc, union_sdiff_of_subset owned, frames]

theorem Sound.step_frames (stepped : PmmStep client op after) : after.frames = client.frames := by
  have consistent := sound.consistent
  cases stepped with
  | @allocPage fuel addr after returned =>
    cases fuel with
    | zero => cases returned
    | succ fuel =>
      rcases consistent.pmmAllocPage_cases with ⟨-, same⟩ | ⟨first, fits, same⟩
      · cases same.symm.trans returned
        rfl
      · exact sound.grant_frames (Nat.le_refl 1) fits (Option.some.inj (same.symm.trans returned))
  | allocPages positive bounded returned =>
    have word : client.pmm.totalPages < 2 ^ 64 := Nat.lt_of_le_of_lt consistent.addressable (by decide)
    rcases Pmm.pmmAllocPages_cases word positive bounded with ⟨first, least, same⟩ | ⟨-, same⟩
    · exact sound.grant_frames positive least.1 (same.symm.trans returned)
    · cases same.symm.trans returned
      rfl
  | freePage owned => exact sound.freePage owned ▸ sound.freePages_frames owned
  | freePages owned => exact sound.freePages_frames owned

end PmmClient

/-- No frame is lost: in every run the frames that were free at the start are those that
are free now and those that the clients hold. -/
theorem pmm_run_loses_no_frame {start : Pmm} {trace : List PmmOp} {client : PmmClient}
    (consistent : start.Consistent) (run : Run PmmStep ⟨start, ∅⟩ trace client) :
    Disjoint client.pmm.freeFrames client.held ∧ client.pmm.freeFrames ∪ client.held = start.freeFrames := by
  have kept : client.Sound ∧ client.frames = start.freeFrames := by
    apply run.invariant
    · exact ⟨⟨consistent, by simp⟩, union_empty _⟩
    · rintro before op after ⟨sound, same⟩ stepped
      exact ⟨sound.step stepped, (sound.step_frames stepped).trans same⟩
  exact ⟨kept.1.disjoint_free Subset.rfl, kept.2⟩

theorem pmm_run_loses_no_frame_taken :
    ∃ client, Run PmmStep ⟨threeFrames, ∅⟩ [.allocPage] client ∧
      client.pmm.freeFrames ∪ client.held = threeFrames.freeFrames := by
  have run : Run PmmStep ⟨threeFrames, ∅⟩ [.allocPage] _ :=
    Run.nil.snoc (.allocPage (show Pmm.pmmAllocPage 2 _ = some (4096, _) from rfl))
  exact ⟨_, run, (pmm_run_loses_no_frame threeFrames_consistent run).2⟩

end Rucix.Memory
