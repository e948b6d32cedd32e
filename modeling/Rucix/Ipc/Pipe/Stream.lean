import Rucix.Ipc.Pipe.Model

namespace Rucix.Ipc

open Rucix.Data Function PipeSystem

namespace Pipe

def contents (pipe : Pipe) : List UInt8 :=
  Ring.contents pipe.buffer pipeSize.toNat pipe.readPos.toNat pipe.bytesAvailable.toNat

structure WellFormed (pipe : Pipe) : Prop where
  availableNonneg : 0 ≤ pipe.bytesAvailable
  availableBound : pipe.bytesAvailable ≤ pipeSize
  readNonneg : 0 ≤ pipe.readPos
  readBound : pipe.readPos < pipeSize
  writeNonneg : 0 ≤ pipe.writePos
  writeBound : pipe.writePos < pipeSize
  balanced : pipe.writePos = (pipe.readPos + pipe.bytesAvailable) % pipeSize

theorem pipeCreate_wellFormed : pipeCreate.WellFormed := by
  constructor <;> simp [pipeCreate, pipeSize]

variable {pipe : Pipe}

theorem WellFormed.contents_length (valid : pipe.WellFormed) :
    (pipe.contents.length : Int) = pipe.bytesAvailable := by
  rw [contents, Ring.contents_length, Int.toNat_of_nonneg valid.availableNonneg]

theorem pipeReadSection_taken (taken : pipeReadSection pipe = .taken byte after) :
    pipe.bytesAvailable ≠ 0 ∧ byte = pipe.buffer pipe.readPos.toNat ∧
      after = { pipe with
        readPos := (pipe.readPos + 1).tmod pipeSize
        bytesAvailable := pipe.bytesAvailable - 1 } := by
  unfold pipeReadSection at taken
  split at taken
  · split at taken <;> contradiction
  · rename_i nonempty
    cases taken
    exact ⟨nonempty, rfl, rfl⟩

theorem pipeWriteSection_stored (stored : pipeWriteSection pipe byte = .stored after) :
    pipe.bytesAvailable ≠ pipeSize ∧
      after = { pipe with
        buffer := update pipe.buffer pipe.writePos.toNat byte
        writePos := (pipe.writePos + 1).tmod pipeSize
        bytesAvailable := pipe.bytesAvailable + 1 } := by
  unfold pipeWriteSection at stored
  split at stored
  · split at stored <;> contradiction
  · rename_i room
    cases stored
    exact ⟨room, rfl⟩

theorem tmod_pipeSize (position : Int) (nonneg : 0 ≤ position) : position.tmod pipeSize = position % pipeSize :=
  Int.tmod_eq_emod_of_nonneg nonneg

section

variable (valid : pipe.WellFormed)
include valid

theorem WellFormed.read (taken : pipeReadSection pipe = .taken byte after) : after.WellFormed := by
  obtain ⟨nonempty, -, rfl⟩ := pipeReadSection_taken taken
  obtain ⟨availableNonneg, availableBound, readNonneg, readBound, writeNonneg, writeBound,
    balanced⟩ := valid
  have advanced := tmod_pipeSize (pipe.readPos + 1) (by omega)
  simp only [pipeSize] at *
  constructor <;> simp only [pipeSize] <;> omega

theorem WellFormed.write (stored : pipeWriteSection pipe byte = .stored after) : after.WellFormed := by
  obtain ⟨room, rfl⟩ := pipeWriteSection_stored stored
  obtain ⟨availableNonneg, availableBound, readNonneg, readBound, writeNonneg, writeBound,
    balanced⟩ := valid
  have advanced := tmod_pipeSize (pipe.writePos + 1) (by omega)
  simp only [pipeSize] at *
  constructor <;> simp only [pipeSize] <;> omega

theorem WellFormed.contents_read (taken : pipeReadSection pipe = .taken byte after) :
    pipe.contents = byte :: after.contents := by
  obtain ⟨nonempty, rfl, rfl⟩ := pipeReadSection_taken taken
  obtain ⟨count, available⟩ := Int.eq_ofNat_of_zero_le valid.availableNonneg
  obtain ⟨start, position⟩ := Int.eq_ofNat_of_zero_le valid.readNonneg
  have positionBound := valid.readBound
  obtain ⟨rest, rfl⟩ : ∃ rest, count = rest + 1 := ⟨count - 1, by omega⟩
  have advanced := tmod_pipeSize (pipe.readPos + 1) (by omega)
  simp only [contents, pipeSize] at *
  have first : start % 4096 = start := Nat.mod_eq_of_lt (by omega)
  have next : ((pipe.readPos + 1).tmod 4096).toNat = (start + 1) % 4096 := by omega
  have left : (pipe.bytesAvailable - 1).toNat = rest := by omega
  rw [next, left, available, position]
  simpa only [Int.toNat_natCast, Int.reduceToNat, first] using
    Ring.contents_pop 4096 start rest

theorem WellFormed.contents_write (stored : pipeWriteSection pipe byte = .stored after) :
    after.contents = pipe.contents ++ [byte] := by
  obtain ⟨room, rfl⟩ := pipeWriteSection_stored stored
  obtain ⟨count, available⟩ := Int.eq_ofNat_of_zero_le valid.availableNonneg
  obtain ⟨start, position⟩ := Int.eq_ofNat_of_zero_le valid.readNonneg
  have availableBound := valid.availableBound
  have balanced := valid.balanced
  simp only [contents, available, position]
  simp only [pipeSize] at *
  have target : pipe.writePos.toNat = (start + count) % 4096 := by omega
  have more : ((count : Int) + 1).toNat = count + 1 := by omega
  rw [target, more]
  simpa only [Int.toNat_natCast, Int.reduceToNat] using
    Ring.contents_push (by omega)

theorem WellFormed.close : (pipeClose pipe flags).1.WellFormed := by
  cases flags <;> exact ⟨valid.1, valid.2, valid.3, valid.4, valid.5, valid.6, valid.7⟩

end

theorem contents_close : (pipeClose pipe flags).1.contents = pipe.contents := by
  cases flags <;> rfl

end Pipe

namespace PipeSystem

/-- The ring is well formed, the bytes written are the bytes read followed by the ring,
and each task's own bytes occur in both histories in the order the task moved them. -/
structure Integrity (system : PipeSystem) : Prop where
  ring : system.pipe.WellFormed
  history : system.inserted.map Prod.snd = system.removed.map Prod.snd ++ system.pipe.contents
  writerOrder : ∀ task, (system.inserted.filter (·.1 = task)).map Prod.snd =
    system.sent task ++ (system.writes task).written
  readerOrder : ∀ task, (system.removed.filter (·.1 = task)).map Prod.snd =
    system.received task ++ (system.reads task).buffer

theorem initial_integrity : initial.Integrity where
  ring := Pipe.pipeCreate_wellFormed
  history := by simp [initial, Pipe.contents, pipeCreate, Ring.contents]
  writerOrder := by simp [initial, WriteCall.written]
  readerOrder := by simp [initial]

variable {system : PipeSystem}

variable (valid : system.Integrity)
include valid

theorem Integrity.setRead (same : call.buffer = (system.reads task).buffer) :
    (system.setRead task call).Integrity where
  ring := valid.ring
  history := valid.history
  writerOrder := valid.writerOrder
  readerOrder := by
    intro other
    rw [show (system.setRead task call).removed = system.removed from rfl, valid.readerOrder other]
    by_cases own : other = task
    · subst other
      simp [PipeSystem.setRead, same]
    · simp [PipeSystem.setRead, own]

theorem Integrity.setWrite (same : call.written = (system.writes task).written) :
    (system.setWrite task call).Integrity where
  ring := valid.ring
  history := valid.history
  readerOrder := valid.readerOrder
  writerOrder := by
    intro other
    rw [show (system.setWrite task call).inserted = system.inserted from rfl,
      valid.writerOrder other]
    by_cases own : other = task
    · subst other
      simp [PipeSystem.setWrite, same]
    · simp [PipeSystem.setWrite, own]

theorem Integrity.readStep : (system.readStep task).Integrity := by
  simp only [PipeSystem.readStep]
  split
  · split
    · exact valid.setRead rfl
    · exact valid
    · rename_i byte pipe taken
      have oldest := valid.ring.contents_read taken
      refine ⟨valid.ring.read taken, ?_, valid.writerOrder, ?_⟩
      · simp [PipeSystem.setRead, valid.history, oldest]
      · intro other
        by_cases own : other = task
        · subst other
          simp [PipeSystem.setRead, valid.readerOrder]
        · simp [PipeSystem.setRead, valid.readerOrder, own, Ne.symm own]
  · exact valid.setRead rfl

omit valid in
theorem written_succ (call : WriteCall) : WriteCall.written { call with bytesWritten := call.bytesWritten + 1 } =
      call.written ++ [call.buffer call.bytesWritten] := by
  simp [WriteCall.written, List.range_succ]

theorem Integrity.writeStep (task : Nat) : (system.writeStep task).Integrity := by
  simp only [PipeSystem.writeStep]
  split
  · split
    · exact valid.setWrite rfl
    · exact valid
    · rename_i pipe stored
      have newest := valid.ring.contents_write stored
      refine ⟨valid.ring.write stored, ?_, ?_, valid.readerOrder⟩
      · simp [PipeSystem.setWrite, valid.history, newest]
      · intro other
        by_cases own : other = task
        · subst other
          simp [PipeSystem.setWrite, valid.writerOrder, written_succ]
        · simp [PipeSystem.setWrite, valid.writerOrder, own, Ne.symm own]
  · exact valid.setWrite rfl

theorem Integrity.beginRead : { system.setRead task (pipeRead flags size) with
      received := update system.received task
        (system.received task ++ (system.reads task).buffer) }.Integrity where
  ring := valid.ring
  history := valid.history
  writerOrder := valid.writerOrder
  readerOrder := by
    intro other
    by_cases own : other = task
    · subst other
      simp [PipeSystem.setRead, valid.readerOrder, pipeRead]
    · simp [PipeSystem.setRead, valid.readerOrder, own]

theorem Integrity.beginWrite : { system.setWrite task (pipeWrite flags buffer size) with
      sent := update system.sent task
        (system.sent task ++ (system.writes task).written) }.Integrity where
  ring := valid.ring
  history := valid.history
  readerOrder := valid.readerOrder
  writerOrder := by
    intro other
    by_cases own : other = task
    · subst other
      simp [PipeSystem.setWrite, valid.writerOrder, pipeWrite, WriteCall.written]
    · simp [PipeSystem.setWrite, valid.writerOrder, own]

theorem Integrity.step (stepped : PipeStep system label after) : after.Integrity := by
  unfold PipeStep at stepped
  cases label with
  | beginRead task flags size =>
    obtain ⟨-, ⟨⟩⟩ := Option.ite_none_right_eq_some.mp stepped
    exact valid.beginRead
  | beginWrite task flags buffer size =>
    obtain ⟨-, ⟨⟩⟩ := Option.ite_none_right_eq_some.mp stepped
    exact valid.beginWrite
  | readSection task =>
    obtain ⟨-, ⟨⟩⟩ := Option.ite_none_right_eq_some.mp stepped
    exact valid.readStep
  | writeSection task =>
    obtain ⟨-, ⟨⟩⟩ := Option.ite_none_right_eq_some.mp stepped
    exact valid.writeStep task
  | close flags =>
    simp only [PipeSystem.step] at stepped
    split at stepped
    · contradiction
    · rename_i pipe closed
      cases stepped
      have same : (pipeClose system.pipe flags).1 = pipe := by rw [closed]
      rw [← same]
      refine ⟨valid.ring.close, ?_, valid.writerOrder, valid.readerOrder⟩
      simpa only [Pipe.contents_close] using valid.history

end PipeSystem

/-- In every interleaving the pipe is a lossless byte queue. -/
theorem pipe_stream_integrity {trace : List PipeLabel} {system : PipeSystem}
    (run : Run PipeStep initial trace system) :
    0 ≤ system.pipe.bytesAvailable ∧ system.pipe.bytesAvailable ≤ pipeSize ∧
    system.pipe.writePos = (system.pipe.readPos + system.pipe.bytesAvailable) % pipeSize ∧
    (0 ≤ system.pipe.readPos ∧ system.pipe.readPos < pipeSize) ∧
    (0 ≤ system.pipe.writePos ∧ system.pipe.writePos < pipeSize) ∧
    system.inserted.map Prod.snd = system.removed.map Prod.snd ++ system.pipe.contents ∧
    (system.pipe.contents.length : Int) = system.pipe.bytesAvailable ∧ ∀ task,
      (system.inserted.filter (·.1 = task)).map Prod.snd =
        system.sent task ++ (system.writes task).written ∧
      (system.removed.filter (·.1 = task)).map Prod.snd =
        system.received task ++ (system.reads task).buffer := by
  have valid : system.Integrity :=
    run.invariant initial_integrity fun _ _ _ before stepped => before.step stepped
  exact ⟨valid.ring.availableNonneg, valid.ring.availableBound, valid.ring.balanced,
    ⟨valid.ring.readNonneg, valid.ring.readBound⟩,
    ⟨valid.ring.writeNonneg, valid.ring.writeBound⟩, valid.history, valid.ring.contents_length,
    fun task => ⟨valid.writerOrder task, valid.readerOrder task⟩⟩

def twoTasks : List PipeLabel :=
  [.beginWrite 1 .wronly (fun index => UInt8.ofNat (index + 7)) 2, .writeSection 1,
    .beginRead 2 .rdonly 1, .writeSection 1, .readSection 2]

theorem pipe_stream_integrity_two_tasks :
    ∃ system, Run PipeStep initial twoTasks system ∧
      system.removed = [(2, 7)] ∧ system.pipe.bytesAvailable = 1 ∧
      system.inserted.map Prod.snd = system.removed.map Prod.snd ++ system.pipe.contents := by
  have run : Run PipeStep initial twoTasks _ :=
    Run.of_execute step rfl
  exact ⟨_, run, by decide, by decide, (pipe_stream_integrity run).2.2.2.2.2.1⟩

end Rucix.Ipc
