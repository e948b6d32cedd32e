import Rucix.Data.Run
import Rucix.Fs.Filemap.Refinement

namespace Rucix.Fs

open Rucix.Data Rucix.Lib

/-! Runs of reads and writes: a file is the bytes last written to it. -/

variable {state after start : Filemap} {touched : Finset Nat} {allocs : Nat → Allocation}

/-- A call with its arguments, its result and what it left in `*ppos`. -/
inductive FilemapOp where
  | read (pos count : Nat) (result : Int) (ppos : Nat) (data : List UInt8)
  | write (pos : Nat) (buf : List UInt8) (result : Int) (ppos : Nat)

def FilemapOp.writes (place : Nat) : FilemapOp → Option UInt8
  | .read .. => none
  | .write pos buf _ _ =>
    if pos ≤ place ∧ place < pos + buf.length then some (buf.getD (place - pos) 0) else none

def FilemapOp.pages : FilemapOp → Finset Nat
  | .read pos count _ _ _ => pagesOf pos count
  | .write pos buf _ _ => pagesOf pos buf.length

def lastWritten (trace : List FilemapOp) (place : Nat) : UInt8 :=
  (trace.reverse.findSome? (FilemapOp.writes place)).getD 0

def touchedPages (trace : List FilemapOp) : Finset Nat :=
  trace.foldl (fun pages op => pages ∪ op.pages) ∅

theorem lastWritten_snoc :
    lastWritten (trace ++ [op]) place = (op.writes place).getD (lastWritten trace place) := by
  simp only [lastWritten, List.reverse_append, List.reverse_singleton, List.singleton_append,
    List.findSome?_cons]
  cases op.writes place <;> rfl

theorem touchedPages_snoc : touchedPages (trace ++ [op]) = touchedPages trace ∪ op.pages := by
  simp [touchedPages]

/-- A call on a file without `readpage` whose allocations succeed. -/
inductive FilemapStep : Filemap → FilemapOp → Filemap → Prop where
  | read {before after : Filemap} {allocs : Nat → Allocation} {pos count ppos : Nat} {result : Int}
      {data : List UInt8} (bounded : pos + count < 2 ^ 64)
      (allocates : count ≠ 0 → before.Allocates allocs (pos / pageSize) (pos + count))
      (returned : genericFileRead allocs none before count pos = some ⟨result, ppos, data, after⟩) :
      FilemapStep before (.read pos count result ppos data) after
  | write {before after : Filemap} {allocs : Nat → Allocation} {pos ppos : Nat} {result : Int}
      {buf moved : List UInt8} (bounded : pos + buf.length < 2 ^ 64)
      (allocates : buf.length ≠ 0 → before.Allocates allocs (pos / pageSize) (pos + buf.length))
      (returned : genericFileWrite allocs none before buf pos = some ⟨result, ppos, moved, after⟩) :
      FilemapStep before (.write pos buf result ppos) after

theorem genericFileRead_spec (mapped : state.hasMapping = true) (backed : state.Backed touched)
    (bounded : pos + count < 2 ^ 64) (allocates : count ≠ 0 → state.Allocates allocs (pos / pageSize) (pos + count)) :
    ∃ after, genericFileRead allocs none state count pos = some ⟨count, pos + count,
        (List.range count).map fun k => state.byteAt (pos + k), after⟩ ∧
      after.Backed (touched ∪ pagesOf pos count) ∧ after.byteAt = state.byteAt ∧
      after.iSize = state.iSize ∧ after.hasMapping = true := by
  obtain ⟨after, looped, kept, bytes, size, same⟩ := readLoop_spec [] backed allocates bounded (Nat.le_refl _)
  refine ⟨after, ?_, kept, bytes, size, same.trans mapped⟩
  simp [genericFileRead, mapped, looped, Transfer.finish]

theorem genericFileWrite_spec (mapped : state.hasMapping = true) (backed : state.Backed touched)
    (bounded : pos + buf.length < 2 ^ 64)
    (allocates : buf.length ≠ 0 → state.Allocates allocs (pos / pageSize) (pos + buf.length)) :
    ∃ after, genericFileWrite allocs none state buf pos =
        some ⟨buf.length, pos + buf.length, buf, after⟩ ∧
      after.Backed (touched ∪ pagesOf pos buf.length) ∧ after.byteAt = overlay state.byteAt pos buf ∧
      after.iSize = grownSize state.iSize pos buf.length ∧ after.hasMapping = true := by
  obtain ⟨after, looped, kept, bytes, size, same⟩ := writeLoop_spec [] backed allocates bounded (Nat.le_refl _)
  refine ⟨after, ?_, kept, bytes, size, same.trans mapped⟩
  simp [genericFileWrite, mapped, looped, Transfer.finish]

structure Filemap.Represents (state : Filemap) (trace : List FilemapOp) : Prop where
  mapped : state.hasMapping = true
  backed : state.Backed (touchedPages trace)
  bytes : state.byteAt = lastWritten trace

theorem FilemapStep.represents (represents : state.Represents trace) (step : FilemapStep state op after) :
    after.Represents (trace ++ [op]) := by
  cases step with
  | read bounded allocates returned =>
    obtain ⟨final, called, kept, bytes, -, mapped⟩ :=
      genericFileRead_spec represents.mapped represents.backed bounded allocates
    cases called.symm.trans returned
    refine ⟨mapped, by rw [touchedPages_snoc]; exact kept, ?_⟩
    funext place
    rw [bytes, represents.bytes, lastWritten_snoc]
    rfl
  | write bounded allocates returned =>
    obtain ⟨final, called, kept, bytes, -, mapped⟩ :=
      genericFileWrite_spec represents.mapped represents.backed bounded allocates
    cases called.symm.trans returned
    refine ⟨mapped, by rw [touchedPages_snoc]; exact kept, ?_⟩
    funext place
    rw [bytes, lastWritten_snoc, overlay, represents.bytes, FilemapOp.writes]
    split <;> rfl

/-- A mapping without pages; frames may hold anything. -/
structure Filemap.Empty (state : Filemap) : Prop where
  mapped : state.hasMapping = true
  tree : state.pageTree = radixTreeInit
  pages : state.nrpages = 0

theorem Filemap.Empty.represents (empty : start.Empty) : start.Represents [] := by
  have missing : ∀ index, start.frameOf index = none := by
    intro index
    rw [Filemap.frameOf, empty.tree]
    rfl
  refine ⟨empty.mapped, ⟨by rw [empty.tree]; rfl, fun index addr found => ?_, fun index other frame held => ?_,
    fun index => ?_, by rw [empty.pages]; rfl⟩, ?_⟩
  · rw [empty.tree] at found
    cases found
  · rw [missing] at held
    cases held
  · simp [missing, touchedPages]
  · funext place
    simp [Filemap.byteAt, Filemap.pageData, missing, lastWritten]

/-- A read returns the bytes last written, a write changes its range and nothing else,
and the cache has one page for every index touched. -/
theorem page_cache_refines_byte_array {trace : List FilemapOp} (empty : start.Empty)
    (run : Run FilemapStep start trace state) :
    state.nrpages = (touchedPages trace).card ∧ (∀ pos count allocs, pos + count < 2 ^ 64 →
      (count ≠ 0 → state.Allocates allocs (pos / pageSize) (pos + count)) →
      ∃ after, genericFileRead allocs none state count pos = some ⟨count, pos + count,
          (List.range count).map fun k => lastWritten trace (pos + k), after⟩ ∧
        after.byteAt = state.byteAt ∧ after.iSize = state.iSize) ∧
    ∀ pos buf allocs, pos + buf.length < 2 ^ 64 →
      (buf.length ≠ 0 → state.Allocates allocs (pos / pageSize) (pos + buf.length)) →
      ∃ after, genericFileWrite allocs none state buf pos =
          some ⟨buf.length, pos + buf.length, buf, after⟩ ∧
        (∀ place, place < pos ∨ pos + buf.length ≤ place → after.byteAt place = state.byteAt place) ∧
        (∀ k < buf.length, after.byteAt (pos + k) = buf.getD k 0) ∧
        after.iSize = if buf.length = 0 then state.iSize else max state.iSize (pos + buf.length) := by
  have reached : state.Represents trace := by
    induction run with
    | nil => exact empty.represents
    | snoc earlier last ih => exact last.represents ih
  refine ⟨reached.backed.counted, fun pos count allocs bounded allocates => ?_,
    fun pos buf allocs bounded allocates => ?_⟩
  · obtain ⟨after, called, -, bytes, size, -⟩ :=
      genericFileRead_spec reached.mapped reached.backed bounded allocates
    rw [reached.bytes] at called
    exact ⟨after, called, bytes, size⟩
  · obtain ⟨after, called, -, bytes, size, -⟩ :=
      genericFileWrite_spec reached.mapped reached.backed bounded allocates
    refine ⟨after, called, fun place outside => ?_, fun k inside => ?_, size⟩
    · rw [bytes, overlay, if_neg (by omega)]
    · rw [bytes, overlay, if_pos (by omega), Nat.add_sub_cancel_left]

def usedFrames : Filemap where
  hasMapping := true
  pageTree := radixTreeInit
  nrpages := 0
  iSize := 0
  pages := fun _ => none
  memory := fun _ _ => 0xAA

def distinctAllocs (index : Nat) : Allocation := ⟨some index, some index, fun _ => true⟩

theorem usedFrames_allocates (stop : Nat) : usedFrames.Allocates distinctAllocs 0 stop := by
  refine ⟨fun index _ _ => ⟨index, index, rfl, rfl, fun _ => rfl, rfl, fun _ => nofun⟩,
    fun index other _ before _ => ⟨fun same => ?_, fun same => ?_⟩⟩
  · cases same
    omega
  · cases same
    omega

/-- A write across a page boundary makes two pages. -/
theorem page_cache_refines_byte_array_boundary :
    usedFrames.Empty ∧ ∃ after, Run FilemapStep usedFrames [.write 4094 [1, 2, 3, 4] 4 4098] after ∧
      after.nrpages = 2 ∧ after.byteAt 4095 = 2 ∧ after.byteAt 4098 = 0 ∧ after.iSize = 4098 := by
  have empty : usedFrames.Empty := ⟨rfl, rfl, rfl⟩
  obtain ⟨after, called, outside, inside, size⟩ := (page_cache_refines_byte_array empty .nil).2.2
    4094 [1, 2, 3, 4] distinctAllocs (by decide) (fun _ => usedFrames_allocates _)
  have run : Run FilemapStep usedFrames [.write 4094 [1, 2, 3, 4] 4 4098] after :=
    .snoc .nil (.write (by decide) (fun _ => usedFrames_allocates _) called)
  exact ⟨empty, after, run, (page_cache_refines_byte_array empty run).1, inside 1 (by decide),
    outside 4098 (by decide), size⟩

end Rucix.Fs
