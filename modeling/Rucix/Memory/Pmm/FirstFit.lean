import Rucix.Data.Loop
import Rucix.Memory.Pmm.Model

namespace Rucix.Memory

open Rucix.Data

/-! `pmm_alloc_pages` as a search for the first fit, and what it touches on the
way when the request is larger than the memory. -/

namespace Pmm

variable {pmm : Pmm} {count first last : Nat}

def Clear (pmm : Pmm) (count first : Nat) : Prop :=
  ∀ frame, first ≤ frame → frame < first + count → pmm.pmmTestBit frame = false

def Fits (pmm : Pmm) (count first : Nat) : Prop :=
  first + count ≤ pmm.totalPages ∧ pmm.Clear count first

/-- The address returned for the frames from `first` on and the allocator left behind. -/
def grant (pmm : Pmm) (count first : Nat) : Nat × Pmm :=
  (wrap 64 (first * pageSize), { pmm with
    bitmap := pmm.bitmap.setRange first count
    freeMemory := wrapSub 64 pmm.freeMemory (wrap 64 (count * pageSize)) })

/-- Moving on past a used frame skips only starts whose window holds that frame. -/
theorem allocPagesFrom_cases {passes index : Nat} (enough : last < index + passes)
    (skipped : ∀ start < index, ¬pmm.Clear count start) :
    (∃ first ≤ last, pmm.Clear count first ∧ (∀ start < first, ¬pmm.Clear count start) ∧
      pmm.allocPagesFrom count last passes index = pmm.grant count first) ∨
    (∀ first ≤ last, ¬pmm.Clear count first) ∧
      pmm.allocPagesFrom count last passes index = (0, pmm) := by
  induction passes generalizing index with
  | zero => exact .inr ⟨fun first inside => skipped first (by omega), rfl⟩
  | succ passes ih =>
    rw [allocPagesFrom]
    split
    · rename_i inside
      split
      · rename_i offset found
        obtain ⟨below, used⟩ := Bitmap.firstSet_some found
        refine ih (by omega) fun start before clear => ?_
        rcases Nat.lt_or_ge start index with earlier | later
        · exact skipped start earlier clear
        · have unused := clear (index + offset) (by omega) (by omega)
          rw [pmmTestBit, used] at unused
          contradiction
      · rename_i absent
        refine .inl ⟨index, inside, fun frame lower upper => ?_, skipped, rfl⟩
        exact Bitmap.firstSet_none absent (by simpa using lower) (by simpa using upper)
    · exact .inr ⟨fun first inside => skipped first (by omega), rfl⟩

/-- A grant changes the bitmap, so it is never the untouched state of a failure. -/
theorem grant_ne (positive : 1 ≤ count) (fits : pmm.Fits count first) : (pmm.grant count first).2 ≠ pmm := by
  intro same
  have before := fits.2 first (Nat.le_refl first) (by omega)
  have after : (pmm.grant count first).2.pmmTestBit first = true := by
    simp only [grant, pmmTestBit, Bitmap.test_setRange, Bool.or_eq_true, decide_eq_true_eq]
    exact .inl ⟨Nat.le_refl first, by omega⟩
  rw [same, before] at after
  contradiction

section Bounded

variable (word : pmm.totalPages < 2 ^ 64) (positive : 1 ≤ count) (bounded : count ≤ pmm.totalPages)
include word positive bounded

theorem pmmAllocPages_cases :
    (∃ first, IsLeast {start | pmm.Fits count start} first ∧
      pmm.pmmAllocPages count = pmm.grant count first) ∨
    (∀ first, ¬pmm.Fits count first) ∧ pmm.pmmAllocPages count = (0, pmm) := by
  have nonzero : count ≠ 0 := by omega
  simp only [pmmAllocPages, if_neg nonzero, wrapSub_of_le bounded word]
  rcases @allocPagesFrom_cases pmm count (pmm.totalPages - count) (pmm.totalPages - count + 1) 0
    (by omega) (by simp) with ⟨first, inside, clear, least, returned⟩ | ⟨none, returned⟩
  · refine .inl ⟨first, ⟨⟨by omega, clear⟩, fun start fits => ?_⟩, returned⟩
    by_contra earlier
    exact least start (by omega) fits.2
  · exact .inr ⟨fun first fits => none first (by have := fits.1; omega) fits.2, returned⟩

/-- `pmm_alloc_pages` is naive first fit.  The address is a `uint64_t`; it is the
plain product while the memory has a 64-bit byte size. -/
theorem pmmAllocPages_first_fit (reserved : pmm.pmmTestBit 0 = true) :
    (∀ first, IsLeast {start | pmm.Fits count start} first →
      ∃ after, pmm.pmmAllocPages count = (wrap 64 (4096 * first), after) ∧
        (∀ frame, after.pmmTestBit frame = true ↔
          pmm.pmmTestBit frame = true ∨ first ≤ frame ∧ frame < first + count) ∧
        after = { pmm with
          bitmap := after.bitmap
          freeMemory := wrapSub 64 pmm.freeMemory (wrap 64 (count * 4096)) }) ∧
    (pmm.pmmAllocPages count = (0, pmm) ↔ ∀ first, ¬pmm.Fits count first) ∧
    (pmm.totalPages ≤ 2 ^ 52 →
      (∀ first, pmm.Fits count first → wrap 64 (4096 * first) = 4096 * first) ∧
      ((pmm.pmmAllocPages count).1 = 0 ↔ ∀ first, ¬pmm.Fits count first)) := by
  have cases := pmmAllocPages_cases word positive bounded
  refine ⟨fun first least => ?_, ?_, fun addressable => ⟨fun first fits => ?_, ?_⟩⟩
  · rcases cases with ⟨other, otherLeast, returned⟩ | ⟨none, -⟩
    · obtain rfl := least.unique otherLeast
      refine ⟨(pmm.grant count first).2, ?_, fun frame => ?_, rfl⟩
      · rw [returned, Nat.mul_comm]
        rfl
      · simp [grant, pmmTestBit, Bitmap.test_setRange, or_comm]
    · exact absurd least.1 (none first)
  · rcases cases with ⟨first, least, returned⟩ | ⟨none, returned⟩
    · refine ⟨fun failed => ?_, fun none => absurd least.1 (none first)⟩
      exact absurd (congrArg Prod.snd (returned.symm.trans failed))
        (grant_ne positive least.1)
    · exact ⟨fun _ => none, fun _ => returned⟩
  · have inside := fits.1
    exact wrap_of_lt (by omega)
  · rcases cases with ⟨first, least, returned⟩ | ⟨none, returned⟩
    · have inside := least.1.1
      have small : wrap 64 (first * pageSize) = first * pageSize :=
        wrap_of_lt (by simp only [pageSize]; omega)
      refine ⟨fun failed => ?_, fun none => absurd least.1 (none first)⟩
      rw [returned, grant, small] at failed
      obtain rfl : first = 0 := by simp only [pageSize] at failed; omega
      have clear := least.1.2 0 (Nat.le_refl 0) (by omega)
      rw [reserved] at clear
      contradiction
    · simp [returned, none]

end Bounded

theorem pmmAllocPages_first_fit_two :
    (pmmAllocPages ⟨fun _ => 3#8, 8, 6 * 4096, 0⟩ 2).1 = 0 ↔
      ∀ first, ¬Fits ⟨fun _ => 3#8, 8, 6 * 4096, 0⟩ 2 first :=
  ((pmmAllocPages_first_fit (by decide) (by decide) (by decide) (by decide)).2.2 (by decide)).2

/-- The search with its `uint64_t` indices `i` and `j`; a turn tests one bit.  It
ends with the first frame found, or with `none` where the source returns 0. -/
def pagesLoop (pmm : Pmm) (count : Nat) : Loop (Nat × Nat) (Option Nat) where
  exit
    | (i, j) =>
      if count = 0 then some none
      else if j = count then some (some i)
      else if j = 0 ∧ wrapSub 64 pmm.totalPages count < i then some none
      else none
  body
    | (i, j) =>
      .inl (if pmm.pmmTestBit (wrap 64 (i + j)) then (wrap 64 (i + j + 1), 0) else (i, j + 1))

/-- No bit at or beyond `total_pages` is tested or set, the call returns, and an
oversized request is refused. -/
structure StaysInside (pmm : Pmm) (count : Nat) : Prop where
  tests : ∀ i j, (pmm.pagesLoop count).Reaches (0, 0) (i, j) →
    (pmm.pagesLoop count).exit (i, j) = none → wrap 64 (i + j) < pmm.totalPages
  returns : ∃ fuel result, (pmm.pagesLoop count).run fuel (0, 0) = some result
  sets : ∀ fuel first, (pmm.pagesLoop count).run fuel (0, 0) = some (some first) →
    ∀ offset < count, wrap 64 (first + offset) < pmm.totalPages
  refuses : pmm.totalPages < count → ∃ fuel, (pmm.pagesLoop count).run fuel (0, 0) = some none

theorem pagesLoop_stays (stays : (pmm.pagesLoop count).exit (i, j) = none) :
    j ≠ count ∧ (j = 0 → i ≤ wrapSub 64 pmm.totalPages count) := by
  simp only [pagesLoop] at stays
  split_ifs at stays
  exact ⟨by assumption, fun zero => by omega⟩

/-- At the head of the loop every start below `i` is refuted and the first `j`
frames of the window at `i` are clear. -/
structure Scanned (pmm : Pmm) (count i j : Nat) : Prop where
  skipped : ∀ start < i, ¬pmm.Clear count start
  clear : ∀ frame, i ≤ frame → frame < i + j → pmm.pmmTestBit frame = false
  offset : j ≤ count
  inside : i + j ≤ pmm.totalPages
  started : 0 < j → i + count ≤ pmm.totalPages

section Fitting

variable (word : pmm.totalPages < 2 ^ 64) (bounded : count ≤ pmm.totalPages)
include word bounded

theorem Scanned.window (scanned : pmm.Scanned count i j) (stays : (pmm.pagesLoop count).exit (i, j) = none) :
    j < count ∧ i + count ≤ pmm.totalPages := by
  obtain ⟨unfinished, head⟩ := pagesLoop_stays stays
  rw [wrapSub_of_le bounded word] at head
  have offset := scanned.offset
  refine ⟨by omega, ?_⟩
  rcases Nat.eq_zero_or_pos j with zero | positive
  · omega
  · exact scanned.started positive

theorem pagesLoop_scanned (reached : (pmm.pagesLoop count).Reaches (0, 0) state) :
    pmm.Scanned count state.1 state.2 := by
  induction reached with
  | start => exact ⟨by simp, fun frame lower upper => by omega, by simp, by simp, by simp⟩
  | @turn state next earlier stays turned ih =>
    obtain ⟨i, j⟩ := state
    obtain ⟨unfinished, window⟩ := ih.window word bounded stays
    simp only [pagesLoop, wrap_of_lt (show i + j < 2 ^ 64 by omega),
      wrap_of_lt (show i + j + 1 < 2 ^ 64 by omega), Sum.inl.injEq] at turned
    split at turned
    · rename_i used
      subst turned
      refine ⟨fun start before clear => ?_, fun frame lower upper => by omega, by simp,
        (by omega : i + j + 1 + 0 ≤ _), by simp⟩
      rcases Nat.lt_or_ge start i with sooner | later
      · exact ih.skipped start sooner clear
      · have unused := clear (i + j) (by omega) (by omega)
        rw [used] at unused
        contradiction
    · rename_i unused
      subst turned
      refine ⟨ih.skipped, fun frame lower upper => ?_, unfinished, (by omega : i + (j + 1) ≤ _),
        fun _ => window⟩
      by_cases last : frame = i + j
      · simpa [last] using unused
      · exact ih.clear frame lower (by omega)

theorem pagesLoop_returns : ∃ result,
    (pmm.pagesLoop count).run pmm.totalPages (0, 0) = some result := by
  refine Loop.run_returns (fun state => pmm.totalPages - (state.1 + state.2)) ?_ ?_ .start (by simp)
  · rintro ⟨i, j⟩ next reached stays turned
    obtain ⟨unfinished, window⟩ := (pagesLoop_scanned word bounded reached).window word bounded stays
    simp only [pagesLoop, wrap_of_lt (show i + j + 1 < 2 ^ 64 by omega), Sum.inl.injEq] at turned
    split at turned <;> subst turned <;> dsimp only <;> omega
  · rintro ⟨i, j⟩ reached spent stays
    obtain ⟨unfinished, window⟩ := (pagesLoop_scanned word bounded reached).window word bounded stays
    omega

theorem Scanned.exit (scanned : pmm.Scanned count i j) (positive : 1 ≤ count)
    (left : (pmm.pagesLoop count).exit (i, j) = some result) :
    (∃ first, result = some first ∧ IsLeast {start | pmm.Fits count start} first) ∨
      result = none ∧ ∀ first, ¬pmm.Fits count first := by
  have nonzero : count ≠ 0 := by omega
  have inside := scanned.inside
  simp only [pagesLoop, if_neg nonzero, wrapSub_of_le bounded word] at left
  split at left
  · rename_i full
    cases left
    subst full
    refine .inl ⟨i, rfl, ⟨inside, scanned.clear⟩, fun start fits => ?_⟩
    by_contra earlier
    exact scanned.skipped start (by omega) fits.2
  · split at left
    · cases left
      refine .inr ⟨rfl, fun first fits => scanned.skipped first ?_ fits.2⟩
      have := fits.1
      omega
    · cases left

/-- The loop finds what the candidate loop of `pmmAllocPages` finds. -/
theorem pagesLoop_result (positive : 1 ≤ count) (returned : (pmm.pagesLoop count).run fuel (0, 0) = some result) :
    pmm.pmmAllocPages count = result.elim (0, pmm) (pmm.grant count) ∧
      ∀ first ∈ result, pmm.Fits count first := by
  have found := Loop.run_result
    (fun result => (∃ first, result = some first ∧ IsLeast {start | pmm.Fits count start} first) ∨
      result = none ∧ ∀ first, ¬pmm.Fits count first)
    (fun state result reached left =>
      (pagesLoop_scanned word bounded reached).exit word bounded positive left)
    (fun state result _ _ turned => by simp [pagesLoop] at turned) .start returned
  rcases found with ⟨first, rfl, least⟩ | ⟨rfl, none⟩ <;>
    rcases pmmAllocPages_cases word positive bounded with ⟨other, otherLeast, same⟩ | ⟨absent, same⟩
  · obtain rfl := least.unique otherLeast
    exact ⟨same, by simpa using least.1⟩
  · exact absurd least.1 (absent first)
  · exact absurd otherLeast.1 (none other)
  · exact ⟨same, by simp⟩

end Fitting

/-- With `count` above `total_pages` the bound of the loop wraps around, and a
turn never ends before it has tested the bit just past the last frame. -/
theorem pagesLoop_oversized (request : count < 2 ^ 64) (short : pmm.totalPages < count)
    (inside : tested ≤ pmm.totalPages) : ∃ i j, i + j = tested ∧
      (pmm.pagesLoop count).Reaches (0, 0) (i, j) ∧ (pmm.pagesLoop count).exit (i, j) = none := by
  have limit : wrapSub 64 pmm.totalPages count = pmm.totalPages + (2 ^ 64 - count) := by
    rw [wrapSub, Nat.mod_eq_of_lt request, Nat.mod_eq_of_lt (by omega)]
  have stays (i j : Nat) (sum : i + j ≤ pmm.totalPages) :
      (pmm.pagesLoop count).exit (i, j) = none := by
    simp only [pagesLoop]
    rw [if_neg (by omega), if_neg (by omega), if_neg (by omega)]
  induction tested with
  | zero => exact ⟨0, 0, rfl, .start, stays 0 0 (by omega)⟩
  | succ tested ih =>
    obtain ⟨i, j, sum, reached, head⟩ := ih (by omega)
    cases used : pmm.pmmTestBit (wrap 64 (i + j)) with
    | true =>
      refine ⟨i + j + 1, 0, by omega, reached.turn head ?_, stays _ _ (by omega)⟩
      simp [pagesLoop, used, wrap_of_lt (show i + j + 1 < 2 ^ 64 by omega)]
    | false =>
      exact ⟨i, j + 1, by omega, reached.turn head (by simp [pagesLoop, used]), stays _ _ (by omega)⟩

/-- The call stays inside the bitmap exactly for the requests that memory could
hold. -/
theorem pages_stay_inside_iff (word : pmm.totalPages < 2 ^ 64) (request : count < 2 ^ 64) :
    pmm.StaysInside count ↔ count ≤ pmm.totalPages := by
  constructor
  · intro inside
    by_contra short
    obtain ⟨i, j, sum, reached, stays⟩ :=
      pagesLoop_oversized request (Nat.lt_of_not_le short) (Nat.le_refl pmm.totalPages)
    have tested := inside.tests i j reached stays
    rw [sum, wrap_of_lt word] at tested
    exact Nat.lt_irrefl _ tested
  · intro bounded
    refine ⟨fun i j reached stays => ?_, ⟨pmm.totalPages, pagesLoop_returns word bounded⟩,
      fun fuel first returned offset within => ?_, fun short => absurd bounded (Nat.not_le.mpr short)⟩
    · obtain ⟨unfinished, window⟩ :=
        (pagesLoop_scanned word bounded reached).window word bounded stays
      rw [wrap_of_lt (by omega)]
      omega
    · have fits := (pagesLoop_result word bounded (by omega) returned).2 first rfl
      have := fits.1
      rw [wrap_of_lt (by omega)]
      omega

theorem pages_stay_inside_eight : StaysInside ⟨fun _ => 1#8, 8, 0, 0⟩ 3 ↔ 3 ≤ 8 :=
  pages_stay_inside_iff (by decide) (by decide)

/-- Two frames asked of a memory with one, which is in use: the search goes on past
the end and hands out the frames 1 and 2. -/
theorem pages_leave_the_bitmap :
    (pagesLoop ⟨fun _ => 1#8, 1, 0, 0⟩ 2).run 3 (0, 0) = some (some 1) ∧
      ¬StaysInside ⟨fun _ => 1#8, 1, 0, 0⟩ 2 := by
  have returned : (pagesLoop ⟨fun _ => 1#8, 1, 0, 0⟩ 2).run 3 (0, 0) = some (some 1) := by decide
  refine ⟨returned, fun inside => ?_⟩
  obtain ⟨fuel, refused⟩ := inside.refuses (by decide)
  have differ := Loop.run_unique returned refused
  contradiction

end Pmm

end Rucix.Memory
