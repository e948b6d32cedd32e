import Rucix.Fs.Ramfs.Storage

namespace Rucix.Fs.Ramfs

open Rucix.Data List

/-! What is read where nothing was written.

The first buffer of a file is zeroed as a whole.  A larger one only gets the
`i_size` bytes of the old one, and keeps what the heap left behind them.
-/

/-- A call without what the heap hands out and without its results. -/
inductive DataCall where
  | write (call : Write) (available : Bool)
  | read (count offset : Nat)

def DataEvent.call : DataEvent → DataCall
  | .write call memory _ _ => .write call memory.isSome
  | .read count offset .. => .read count offset

/-- The part of a file's state that does not depend on any contents of memory,
with the number of buffers it was given and the writes that succeeded. -/
structure Layout where
  capacity : Nat
  iSize : Nat
  buffers : Nat
  stored : List Write

namespace Layout

def empty : Layout where
  capacity := 0
  iSize := 0
  buffers := 0
  stored := []

def Succeeds (layout : Layout) (call : Write) (available : Bool) : Prop :=
  call.finish ≤ layout.capacity ∨ available = true

instance (layout : Layout) (call : Write) (available : Bool) :
    Decidable (layout.Succeeds call available) := inferInstanceAs (Decidable (_ ∨ _))

def store (layout : Layout) (call : Write) : Layout where
  capacity :=
    if layout.capacity < call.finish then (call.finish + 4095) / 4096 * 4096 else layout.capacity
  iSize := max layout.iSize call.finish
  buffers := if layout.capacity < call.finish then layout.buffers + 1 else layout.buffers
  stored := layout.stored ++ [call]

def next (layout : Layout) : DataCall → Layout
  | .write call available => if layout.Succeeds call available then layout.store call else layout
  | .read .. => layout

/-- A write that leaves a gap behind the end leaves it in the first buffer. -/
def GapInFirst (layout : Layout) : DataCall → Prop
  | .write call available =>
    layout.Succeeds call available → layout.iSize < call.offset → (layout.store call).buffers ≤ 1
  | .read .. => True

end Layout

def layoutOf (calls : List DataCall) : Layout := calls.foldl Layout.next .empty

def GapsInFirst (calls : List DataCall) : Prop :=
  ∀ earlier call later, calls = earlier ++ call :: later → (layoutOf earlier).GapInFirst call

def HolesReadZero (inode : RegularInode) (writes : List Write) : Prop :=
  ∀ count offset result final bytes, offset + count < 2 ^ 64 - 4096 →
    inode.ramfsRead count offset = some (result, final, bytes) →
    ∀ index, index < bytes.length → lastWritten writes (offset + index) = none →
      bytes[index]? = some 0

variable {inode before after : RegularInode} {layout : Layout} {event : DataEvent} {call : Write}
  {memory : Option Block}

theorem Layout.store_buffers : (layout.store call).buffers =
    if layout.capacity < call.finish then layout.buffers + 1 else layout.buffers := rfl

theorem layoutOf_snoc (calls : List DataCall) (call : DataCall) :
    layoutOf (calls ++ [call]) = (layoutOf calls).next call := by
  rw [layoutOf, foldl_append]
  rfl

theorem GapsInFirst.of_append (gaps : GapsInFirst (earlier ++ later)) : GapsInFirst earlier := by
  intro first call rest split
  apply gaps first call (rest ++ later)
  rw [split, append_assoc, cons_append]

theorem gapsInFirst_snoc {calls : List DataCall} {call : DataCall} :
    GapsInFirst (calls ++ [call]) ↔ GapsInFirst calls ∧ (layoutOf calls).GapInFirst call := by
  constructor
  · intro gaps
    exact ⟨gaps.of_append, gaps calls call [] rfl⟩
  · intro ⟨gaps, last⟩ earlier early later split
    rcases eq_nil_or_concat later with rfl | ⟨middle, final, rfl⟩
    · obtain ⟨rfl, same⟩ := append_inj' split rfl
      cases same
      exact last
    · rw [concat_eq_append, ← cons_append, ← append_assoc] at split
      exact gaps _ _ _ (append_inj' split rfl).1

structure Follows (inode : RegularInode) (layout : Layout) : Prop where
  holds : Holds inode layout.stored
  capacity : inode.capacity = layout.capacity
  size : inode.iSize = layout.iSize
  unallocated : inode.data = none ↔ layout.buffers = 0

theorem Follows.initial : Follows .ramfsGetInode .empty where
  holds := .initial
  capacity := rfl
  size := rfl
  unallocated := ⟨fun _ => rfl, fun _ => rfl⟩

inductive DataChange (before : RegularInode) (layout : Layout) : DataEvent → RegularInode → Prop where
  | kept {event : DataEvent} (same : layout.next event.call = layout)
      (failed : succeeded [event] = []) : DataChange before layout event before
  | stored {call : Write} {memory : Option Block} (fits : call.finish ≤ layout.capacity) :
      DataChange before layout (.write call memory call.bytes.length call.finish) (before.store call)
  | regrown {call : Write} {block : Block} (growing : layout.capacity < call.finish) :
      DataChange before layout (.write call (some block) call.bytes.length call.finish)
        ((before.regrow ((call.finish + 4095) / 4096 * 4096) block).store call)

section

variable {result : Int} {offset : Nat}

theorem next_stored (fits : call.finish ≤ layout.capacity) :
    layout.next (DataEvent.write call memory result offset).call =
      { layout with
        iSize := max layout.iSize call.finish
        stored := layout.stored ++ [call] } := by
  have small : ¬layout.capacity < call.finish := by omega
  rw [DataEvent.call, Layout.next, if_pos (.inl fits)]
  simp only [Layout.store, small, if_false]

theorem next_regrown (growing : layout.capacity < call.finish) :
    layout.next (DataEvent.write call (some block) result offset).call =
      { capacity := (call.finish + 4095) / 4096 * 4096
        iSize := max layout.iSize call.finish
        buffers := layout.buffers + 1
        stored := layout.stored ++ [call] } := by
  rw [DataEvent.call, Layout.next, if_pos (.inr rfl)]
  simp only [Layout.store, growing, if_true]

end

/-- Positions without a write are zero in front of the end, and everywhere in
the first buffer. -/
def Zeroed (inode : RegularInode) (layout : Layout) : Prop :=
  ∀ data ∈ inode.data, ∀ position, position < layout.capacity →
    lastWritten layout.stored position = none →
    position < layout.iSize ∨ layout.buffers ≤ 1 → data position = 0

theorem skipped_position (skipped : call.byteAt position = none) (early : position < max layout.iSize call.finish) :
    position < layout.iSize ∨ layout.iSize ≤ position ∧ position < call.offset := by
  by_contra neither
  have inside : position - call.offset < call.bytes.length := by
    simp only [Write.finish] at early
    omega
  rw [Write.byteAt, if_pos (by omega), getElem?_eq_getElem inside] at skipped
  cases skipped

theorem lastWritten_snoc_none :
    lastWritten (writes ++ [call]) position = none ↔
      call.byteAt position = none ∧ lastWritten writes position = none := by
  rw [lastWritten_snoc, Option.or_eq_none_iff]

theorem store_skipped (held : data ∈ (inode.store call).data) (skipped : call.byteAt position = none) :
    ∃ old ∈ inode.data, data position = old position := by
  obtain ⟨old, stored, rfl⟩ := Option.map_eq_some_iff.mp held
  exact ⟨old, stored, by rw [call.put_apply, skipped, Option.getD_none]⟩

/-- The bytes in front of the end, as the writes alone determine them. -/
theorem Zeroed.data (zeroed : Zeroed inode layout) (follows : Follows inode layout) (early : position < layout.iSize) :
    inode.data.getD .zero position = (lastWritten layout.stored position).getD 0 := by
  cases written : lastWritten layout.stored position with
  | some byte => exact follows.holds.getD_kept written
  | none =>
    have within := follows.holds.within
    rw [follows.size, follows.capacity] at within
    cases held : inode.data with
    | none => rfl
    | some data => exact zeroed data held position (by omega) written (.inl early)

theorem Zeroed.ramfsRead (zeroed : Zeroed inode layout) (follows : Follows inode layout) {count : Nat}
    (bound : offset + count < 2 ^ 64 - 4096) : inode.ramfsRead count offset =
      some (((min count (layout.iSize - offset) : Nat) : Int),
        offset + min count (layout.iSize - offset),
        (List.range (min count (layout.iSize - offset))).map fun index =>
          (lastWritten layout.stored (offset + index)).getD 0) := by
  rw [follows.holds.ramfsRead bound, follows.size]
  congr 3
  refine map_congr_left fun index inside => zeroed.data follows ?_
  have inside := mem_range.mp inside
  omega

/-- Behind the end, a buffer other than the first holds what the heap left. -/
def Stale (fill : UInt8) (inode : RegularInode) (layout : Layout) : Prop :=
  2 ≤ layout.buffers → ∀ data ∈ inode.data, ∀ position, layout.iSize ≤ position →
    position < layout.capacity → data position = fill

/-- The heap hands out blocks of equal bytes. -/
def DataEvent.Filled (fill : UInt8) : DataEvent → Prop
  | .write _ memory _ _ => ∀ block ∈ memory, block = fun _ => fill
  | .read .. => True

def NeverExposed (trace : List DataEvent) : Prop :=
  ∀ earlier later, trace = earlier ++ later → ∀ other final,
    other.map DataEvent.call = earlier.map DataEvent.call →
    Run DataStep .ramfsGetInode other final → HolesReadZero final (succeeded other)

section

variable {fill : UInt8} (follows : Follows before layout)
include follows

theorem Follows.change (step : DataStep before event after) :
    DataChange before layout event after := by
  cases step with
  | read => exact .kept rfl rfl
  | @write call memory result offset after bound wrote =>
    rw [follows.holds.ramfsWrite bound, RegularInode.reserve, follows.capacity,
      roundUp_capacity bound] at wrote
    by_cases growing : layout.capacity < call.finish
    · rw [if_pos growing] at wrote
      cases memory with
      | none =>
        obtain ⟨rfl, rfl, rfl⟩ := wrote
        refine .kept (if_neg ?_) rfl
        simp only [Layout.Succeeds, Option.isSome_none, Bool.false_eq_true, or_false]
        omega
      | some block =>
        obtain ⟨rfl, rfl, rfl⟩ := wrote
        exact .regrown growing
    · rw [if_neg growing] at wrote
      obtain ⟨rfl, rfl, rfl⟩ := wrote
      exact .stored (by omega)

theorem Follows.step (step : DataStep before event after) :
    Follows after (layout.next event.call) ∧
      (layout.next event.call).stored = layout.stored ++ succeeded [event] := by
  have holds := follows.holds.step step
  cases follows.change step with
  | kept same failed =>
    rw [same, failed, append_nil]
    exact ⟨follows, rfl⟩
  | @stored call memory fits =>
    rw [next_stored fits]
    refine ⟨⟨holds, follows.capacity, ?_, ?_⟩, rfl⟩
    · simp only [RegularInode.store, follows.size]
    · simp only [RegularInode.store, Option.map_eq_none_iff]
      exact follows.unallocated
  | @regrown call block growing =>
    rw [next_regrown growing]
    refine ⟨⟨holds, rfl, ?_, ?_⟩, rfl⟩
    · simp only [RegularInode.store, RegularInode.regrow, follows.size]
    · simp [RegularInode.store, RegularInode.regrow]

theorem Zeroed.of_change (zeroed : Zeroed before layout) (change : DataChange before layout event after)
    (gap : layout.GapInFirst event.call) : Zeroed after (layout.next event.call) := by
  cases change with
  | kept same failed =>
    rw [same]
    exact zeroed
  | @stored call memory fits =>
    rw [next_stored fits]
    intro data held position inside unwritten reached
    obtain ⟨skipped, unwritten⟩ := lastWritten_snoc_none.mp unwritten
    obtain ⟨old, stored, same⟩ := store_skipped held skipped
    rw [same]
    refine zeroed old stored position inside unwritten ?_
    rcases reached with early | first
    · rcases skipped_position skipped early with early | ⟨late, gapped⟩
      · exact .inl early
      · have first := gap (.inl fits) (by omega)
        rw [Layout.store_buffers, if_neg (by omega)] at first
        exact .inr first
    · exact .inr first
  | @regrown call block growing =>
    rw [next_regrown growing]
    intro data held position inside unwritten reached
    obtain ⟨skipped, unwritten⟩ := lastWritten_snoc_none.mp unwritten
    obtain ⟨grown, stored, same⟩ := store_skipped held skipped
    rw [same]
    simp only [RegularInode.regrow, Option.mem_def, Option.some.injEq] at stored
    cases old : before.data with
    | none =>
      rw [← stored, old]
      exact if_pos inside
    | some data =>
      -- the new buffer is not the first, so the position is not in a gap
      have second : layout.buffers ≠ 0 := by
        intro none
        rw [follows.unallocated.mpr none] at old
        cases old
      have early : position < layout.iSize := by
        rcases reached with early | first
        · rcases skipped_position skipped early with early | ⟨late, gapped⟩
          · exact early
          · have first := gap (.inr rfl) (by omega)
            rw [Layout.store_buffers, if_pos growing] at first
            omega
        · simp only at first
          omega
      rw [← stored, old]
      simp only [Block.copy, follows.size, early]
      have within := follows.holds.within
      rw [follows.size, follows.capacity] at within
      exact zeroed data old position (by omega) unwritten (.inl early)

/-- What a call leaves behind the old end of the file is what the heap held, unless the call writes it. -/
theorem Stale.beyond (stale : Stale fill before layout) (change : DataChange before layout event after)
    (filled : event.Filled fill)
    (second : 2 ≤ (layout.next event.call).buffers) (held : data ∈ after.data) (late : layout.iSize ≤ position)
    (inside : position < (layout.next event.call).capacity)
    (skipped : ∀ call ∈ succeeded [event], call.byteAt position = none) : data position = fill := by
  cases change with
  | kept same failed =>
    rw [same] at second inside
    exact stale second data held position late inside
  | @stored call memory fits =>
    rw [next_stored fits] at second inside
    rw [succeeded_length, forall_mem_singleton] at skipped
    obtain ⟨old, stored, same⟩ := store_skipped held skipped
    rw [same]
    exact stale second old stored position late inside
  | @regrown call block growing =>
    rw [next_regrown growing] at second
    rw [succeeded_length, forall_mem_singleton] at skipped
    obtain ⟨grown, stored, same⟩ := store_skipped held skipped
    rw [same]
    simp only [RegularInode.regrow, Option.mem_def, Option.some.injEq] at stored
    cases old : before.data with
    | none =>
      have := follows.unallocated.mp old
      simp only at second
      omega
    | some data =>
      rw [← stored, old, filled block rfl]
      exact if_neg (by rw [follows.size]; omega)

theorem Stale.of_change (stale : Stale fill before layout) (change : DataChange before layout event after)
    (filled : event.Filled fill) : Stale fill after (layout.next event.call) := by
  intro second data held position late inside
  have behind : layout.iSize ≤ position ∧ ∀ call ∈ succeeded [event], call.finish ≤ position := by
    cases change with
    | kept same failed =>
      rw [same] at late
      rw [failed]
      exact ⟨late, nofun⟩
    | stored fits =>
      rw [next_stored fits] at late
      rw [succeeded_length, forall_mem_singleton]
      exact Nat.max_le.mp late
    | regrown growing =>
      rw [next_regrown growing] at late
      rw [succeeded_length, forall_mem_singleton]
      exact Nat.max_le.mp late
  exact stale.beyond follows change filled second held behind.1 inside fun call member =>
    call.byteAt_none (.inr (behind.2 call member))

theorem Follows.exists_step (step : DataStep inode event after) (fill : UInt8) :
    ∃ other final, other.call = event.call ∧ other.Filled fill ∧ DataStep before other final := by
  cases step with
  | @write call memory result offset after bound wrote =>
    have result := follows.holds.ramfsWrite bound (memory.map fun _ _ => fill)
    have filled : ∀ block ∈ memory.map (fun (_ : Block) (_ : Nat) => fill), block = fun _ => fill := by
      intro block held
      obtain ⟨_, _, rfl⟩ := Option.map_eq_some_iff.mp held
      rfl
    have same : ∀ result offset,
        (DataEvent.write call (memory.map fun _ _ => fill) result offset).call =
          .write call memory.isSome := by
      intro result offset
      rw [DataEvent.call, Option.isSome_map]
    cases reserved : before.reserve call.finish (memory.map fun _ _ => fill) with
    | none =>
      rw [reserved] at result
      exact ⟨_, _, same _ _, filled, .write bound result⟩
    | some grown =>
      rw [reserved] at result
      exact ⟨_, _, same _ _, filled, .write bound result⟩
  | @read count offset final result bytes bound read =>
    exact ⟨_, _, by rfl, by trivial, .read bound (follows.holds.ramfsRead bound)⟩

/-- A gap outside of the first buffer shows the heap to a reader. -/
theorem Stale.exposed (stale : Stale fill before layout) (step : DataStep before event after)
    (filled : event.Filled fill) (gap : ¬layout.GapInFirst event.call) :
    ∃ final, after.ramfsRead 1 layout.iSize = some (1, final, [fill]) ∧
      layout.iSize + 1 < 2 ^ 64 - 4096 ∧
      lastWritten (layout.next event.call).stored layout.iSize = none := by
  have change := follows.change step
  obtain ⟨next, -⟩ := follows.step step
  have unwritten : lastWritten layout.stored layout.iSize = none := by
    cases written : lastWritten layout.stored layout.iSize with
    | none => rfl
    | some byte =>
      have early := lt_furthest written
      rw [← follows.holds.size, follows.size] at early
      omega
  cases step with
  | read => exact absurd trivial gap
  | @write call memory result offset after bound wrote =>
    simp only [DataEvent.call, Layout.GapInFirst, Classical.not_imp, Nat.not_le] at gap
    obtain ⟨succeeds, gapped, second⟩ := gap
    have stored : layout.next (DataEvent.write call memory result offset).call = layout.store call :=
      if_pos succeeds
    have longer : layout.iSize < call.finish := by
      simp only [Write.finish]
      omega
    rw [stored] at next ⊢
    have size : after.iSize = max layout.iSize call.finish := next.size
    have within := next.holds.within
    have heap : after.data.getD .zero layout.iSize = fill := by
      cases held : after.data with
      | none =>
        have := next.holds.allocated held
        omega
      | some data =>
        refine stale.beyond follows change filled (stored ▸ second) held (Nat.le_refl _) ?_ fun other member => ?_
        · rw [stored, ← next.capacity]
          omega
        · obtain ⟨-, rfl⟩ : _ ∧ call = other := by simpa [succeeded] using member
          exact call.byteAt_none (.inl gapped)
    have one : min 1 (after.iSize - layout.iSize) = 1 := by omega
    refine ⟨layout.iSize + 1, ?_, by omega, lastWritten_snoc_none.mpr ⟨call.byteAt_none (.inl gapped), unwritten⟩⟩
    rw [next.holds.ramfsRead (by omega), one, ← heap]
    rfl

end

section

variable (run : Run DataStep .ramfsGetInode trace inode)
include run

theorem follows_run :
    Follows inode (layoutOf (trace.map DataEvent.call)) ∧
      (layoutOf (trace.map DataEvent.call)).stored = succeeded trace := by
  induction run with
  | nil => exact ⟨.initial, rfl⟩
  | snoc earlier last ih =>
    obtain ⟨follows, writes⟩ := ih
    obtain ⟨next, stored⟩ := follows.step last
    rw [map_append, map_singleton, layoutOf_snoc]
    refine ⟨next, ?_⟩
    rw [stored, writes, succeeded, succeeded, succeeded, filterMap_append]

theorem zeroed_run (gaps : GapsInFirst (trace.map DataEvent.call)) :
    Zeroed inode (layoutOf (trace.map DataEvent.call)) := by
  induction run with
  | nil =>
    intro data held
    cases held
  | snoc earlier last ih =>
    rw [map_append, map_singleton] at gaps ⊢
    obtain ⟨gaps, gap⟩ := gapsInFirst_snoc.mp gaps
    rw [layoutOf_snoc]
    have follows := (follows_run earlier).1
    exact (ih gaps).of_change follows (follows.change last) gap

theorem exists_filled_run : ∃ other final, other.map DataEvent.call = trace.map DataEvent.call ∧
      Run DataStep .ramfsGetInode other final ∧
      Stale fill final (layoutOf (trace.map DataEvent.call)) := by
  induction run with
  | nil =>
    refine ⟨[], _, rfl, .nil, ?_⟩
    intro second data held
    cases held
  | @snoc trace before after event earlier last ih =>
    obtain ⟨other, final, same, run, stale⟩ := ih
    have follows := (follows_run run).1
    rw [same] at follows
    obtain ⟨next, after, call, filled, step⟩ := follows.exists_step last fill
    refine ⟨other ++ [next], after, ?_, .snoc run step, ?_⟩
    · rw [map_append, map_append, same, map_singleton, map_singleton, call]
    · rw [map_append, map_singleton, layoutOf_snoc, ← call]
      exact stale.of_change follows (follows.change step) filled

theorem GapsInFirst.holesReadZero (gaps : GapsInFirst (trace.map DataEvent.call)) :
    HolesReadZero inode (succeeded trace) := by
  obtain ⟨follows, writes⟩ := follows_run run
  intro count offset result final bytes bound read index inside unwritten
  rw [(zeroed_run run gaps).ramfsRead follows bound] at read
  cases read
  simp only [length_map, length_range] at inside
  rw [← writes] at unwritten
  simp only [getElem?_map, getElem?_range inside, Option.map_some, unwritten,
    Option.getD_none]

theorem NeverExposed.gapsInFirst (zero : NeverExposed trace) :
    GapsInFirst (trace.map DataEvent.call) := by
  induction run with
  | nil =>
    intro earlier call later split
    simp at split
  | @snoc trace before after event earlier last ih =>
    rw [map_append, map_singleton, gapsInFirst_snoc]
    refine ⟨ih fun first rest split => zero first (rest ++ [event]) (by rw [split, append_assoc]), ?_⟩
    by_contra gap
    -- the same calls on a heap of ones
    obtain ⟨other, final, same, run, stale⟩ := exists_filled_run earlier
    have follows := (follows_run run).1
    rw [same] at follows
    obtain ⟨next, after, call, filled, step⟩ := follows.exists_step last 1
    rw [← call] at gap
    obtain ⟨position, read, bound, unwritten⟩ := stale.exposed follows step filled gap
    have whole : (other ++ [next]).map DataEvent.call = (trace ++ [event]).map DataEvent.call := by
      rw [map_append, map_append, same, map_singleton, map_singleton, call]
    have writes := (follows_run (.snoc run step)).2
    rw [map_append, map_singleton, layoutOf_snoc, same] at writes
    rw [writes] at unwritten
    have zeroed := zero _ [] (append_nil _).symm _ _ whole (.snoc run step)
      1 _ _ _ _ bound read 0 (by simp) unwritten
    exact absurd zeroed (by decide)

end

/-- Whatever the heap held, positions without a write read as zero after each call,
exactly if every write behind the end that succeeds goes to the first buffer; and then a
read is the same for any contents of the heap. -/
theorem ramfs_holes_run (run : Run DataStep .ramfsGetInode trace inode) :
    (GapsInFirst (trace.map DataEvent.call) ↔ NeverExposed trace) ∧
      (GapsInFirst (trace.map DataEvent.call) → ∀ other final,
        other.map DataEvent.call = trace.map DataEvent.call →
        Run DataStep .ramfsGetInode other final → ∀ count offset, offset + count < 2 ^ 64 - 4096 →
          final.ramfsRead count offset = inode.ramfsRead count offset) := by
  refine ⟨⟨?_, NeverExposed.gapsInFirst run⟩, ?_⟩
  · intro gaps earlier later split other final same variant
    rw [split, map_append] at gaps
    have gaps := gaps.of_append
    rw [← same] at gaps
    exact gaps.holesReadZero variant
  · intro gaps other final same variant count offset bound
    have follows := (follows_run variant).1
    rw [same] at follows
    have zeroed := zeroed_run variant (by rw [same]; exact gaps)
    rw [same] at zeroed
    rw [zeroed.ramfsRead follows bound, (zeroed_run run gaps).ramfsRead (follows_run run).1 bound]

def gapAt (offset : Nat) : List DataEvent :=
  [.write ⟨0, [1]⟩ (some fun _ => 170) 1 1, .write ⟨offset, [2]⟩ (some fun _ => 170) 1 (offset + 1)]

theorem gapAt_hundred_first : GapsInFirst ((gapAt 100).map DataEvent.call) := by
  have first : GapsInFirst ([] ++ [DataCall.write ⟨0, [1]⟩ true]) :=
    gapsInFirst_snoc.mpr ⟨fun earlier call later split => by simp at split, fun _ late => by cases late⟩
  have second : (layoutOf [DataCall.write ⟨0, [1]⟩ true]).GapInFirst (.write ⟨100, [2]⟩ true) :=
    fun _ _ => by decide
  exact gapsInFirst_snoc.mpr ⟨first, second⟩

theorem ramfs_holes_run_hundred : ∃ inode, Run DataStep .ramfsGetInode (gapAt 100) inode ∧
      GapsInFirst ((gapAt 100).map DataEvent.call) ∧ NeverExposed (gapAt 100) := by
  have run : Run DataStep .ramfsGetInode (gapAt 100) _ :=
    .snoc (.snoc .nil (.write (by decide) rfl)) (.write (by decide) rfl)
  exact ⟨_, run, gapAt_hundred_first, (ramfs_holes_run run).1.mp gapAt_hundred_first⟩

/-- After one byte at the start, a seek to 8192 and one more byte, a read in
between returns what the heap held. -/
theorem seek_exposes_heap : vfsLseek 1 1 8192 .seekSet = (8192, 8192) ∧
      ∃ inode, Run DataStep .ramfsGetInode (gapAt 8192) inode ∧ 4096 < inode.iSize ∧
        lastWritten (succeeded (gapAt 8192)) 4096 = none ∧
        inode.ramfsRead 1 4096 = some (1, 4097, [170]) :=
  ⟨by decide, _, .snoc (.snoc .nil (.write (by decide) rfl)) (.write (by decide) rfl), by decide,
    by decide, rfl⟩

end Rucix.Fs.Ramfs
