import Rucix.Fs.OpenFiles.RefCount

namespace Rucix.Fs

open Rucix.Data Rucix.Ipc Function OpenFiles

/-! The ends of pipes.

`vfs_dup` raises the count of the file only, while every `vfs_close` lowers the
count of the pipe's end as well.
-/

theorem fd_lt {fd : Int} (valid : 0 ≤ fd ∧ fd < maxFiles) : fd.toNat < maxFiles := by omega

def OpenFiles.fileAt (state : OpenFiles) (pid : Nat) (fd : Int) : Option File :=
  if valid : 0 ≤ fd ∧ fd < maxFiles then
    (state.fdTable pid ⟨fd.toNat, fd_lt valid⟩).bind state.files
  else none

def FileOp.closing (state : OpenFiles) : FileOp → Option File
  | .vfsClose pid fd => state.fileAt pid fd
  | _ => none

/-- A call that neither starts nor ends a process. -/
def FileOp.WithinProcess : FileOp → Prop
  | .processFork .. | .processExit .. => False
  | _ => True

variable {state after : OpenFiles}

theorem FileStep.change (step : FileStep state op after) (sound : state.sharing.Sound) (within : op.WithinProcess) :
    state.sharing.Change (op.closing state) after.sharing := by
  obtain ⟨member, fresh, rfl⟩ := step
  have tracked : ∀ addr, state.files addr = none → state.references addr = 0 := fun _ => sound.unreferenced
  cases op with
  | vfsOpen pid resolve file opened => exact (vfsOpen_sharing member resolve opened tracked fresh).1
  | vfsClose pid fd =>
    change state.sharing.Change (state.fileAt pid fd) (state.vfsClose pid fd).2.sharing
    unfold vfsClose fileAt
    split
    · exact (vfsCloseFd_sharing member tracked _).1
    · exact .kept
  | vfsDup pid oldfd => exact (vfsDup_sharing member tracked oldfd).1
  | pipeCreate pid pipe reader writer =>
    exact (pipeCreate_sharing member tracked fresh.1 fresh.2.1 fresh.2.2).1
  | processFork | processExit => exact within.elim

theorem OpenFiles.initial_sound (pids : Finset Nat) : (initial pids).sharing.Sound := by
  have unused : ∀ addr, (initial pids).references addr = 0 := fun addr =>
    references_eq_zero.mpr fun _ _ stored => by cases stored
  constructor
  · intro addr positive
    have := unused addr
    simp only [sharing] at positive
    omega
  · intro addr pipe flags ends
    cases ends
  · intro left right pipe flags ends
    cases ends
  · intro pipe found flags allocated
    cases allocated
  · intro pipe found allocated
    cases allocated
  · intro left right pipe leftEnd rightEnd ends
    cases ends

/-- A call within a process that closes pipe descriptors only as the last ones
of their files. -/
def CarefulFileStep (before : OpenFiles) (op : FileOp) (after : OpenFiles) : Prop :=
  FileStep before op after ∧ op.WithinProcess ∧ Sharing.ClosesLast (op.closing before)

/-- An end of a pipe with an open descriptor is counted by its pipe, and a pipe is freed
exactly with the last descriptor of both ends.  Any other `vfs_close` leaves an end with
an open descriptor uncounted. -/
theorem pipe_ends_run {pids : Finset Nat} {trace : List FileOp}
    (run : Run CarefulFileStep (initial pids) trace state) : state.sharing.EndsCounted ∧
      ∀ op after, FileStep state op after → op.WithinProcess →
        (after.sharing.EndsCounted ↔ Sharing.ClosesLast (op.closing state)) ∧
        (Sharing.ClosesLast (op.closing state) → ∀ pipe,
          (state.pipes pipe ≠ none ∧ after.pipes pipe = none) ↔
            (∃ flags, state.sharing.IsOpen pipe flags) ∧
              ∀ flags, ¬after.sharing.IsOpen pipe flags) := by
  have sound : state.sharing.Sound := by
    induction run with
    | nil => exact initial_sound pids
    | snoc _ stepped ih =>
      obtain ⟨step, within, last⟩ := stepped
      exact ih.step (step.change ih within) last
  refine ⟨sound.endsCounted, ?_⟩
  intro op after step within
  have change := step.change sound within
  exact ⟨sound.endsCounted_step change, sound.freed_iff change⟩

def createThenCloseWriter : List FileOp :=
  [.pipeCreate 1 (some 5) (some 6) (some 7), .vfsOpen 1 0 (some 8) 0, .vfsClose 1 1]

theorem pipe_ends_run_closed_writer :
    ∃ state, Run CarefulFileStep (initial {1}) createThenCloseWriter state ∧
      state.sharing.EndsCounted ∧ (state.pipes 5).map (·.readers) = some 1 := by
  have run : Run CarefulFileStep (initial {1}) createThenCloseWriter _ :=
    Run.of_performs ⟨⟨⟨by decide, by simp [FileOp.Fresh, initial], rfl⟩, trivial, by rintro _ ⟨⟩⟩,
      ⟨⟨by decide, fun addr new => by cases new; decide +kernel, rfl⟩, trivial, by rintro _ ⟨⟩⟩,
      ⟨⟨by decide, trivial, rfl⟩, trivial, by decide +kernel⟩, trivial⟩
  exact ⟨_, run, (pipe_ends_run run).1, by decide +kernel⟩

def dupThenCloseWriter : List FileOp :=
  [.pipeCreate 1 (some 5) (some 6) (some 7), .vfsDup 1 1, .vfsClose 1 1]

/-- The pipe has no writer left although descriptor 2 writes to it, and closing
the reader frees it. -/
theorem dup_then_close_loses_writer :
    ∃ state after, Run FileStep (initial {1}) dupThenCloseWriter state ∧
      state.fdTable 1 2 = some 7 ∧ state.files 7 = some { fOp := .pipe 5 .wronly, fCount := 1 } ∧
      (state.pipes 5).map (·.writers) = some 0 ∧ FileStep state (.vfsClose 1 0) after ∧
      after.fdTable 1 2 = some 7 ∧ (after.pipes 5).isNone = true := by
  have run : Run FileStep (initial {1}) dupThenCloseWriter _ :=
    Run.of_performs ⟨⟨by decide, by simp [FileOp.Fresh, initial], rfl⟩,
      ⟨by decide, trivial, rfl⟩, ⟨by decide, trivial, rfl⟩, trivial⟩
  exact ⟨_, _, run, by decide +kernel, by decide +kernel, by decide +kernel,
    ⟨by decide +kernel, trivial, rfl⟩, by decide +kernel, by decide +kernel⟩

end Rucix.Fs
