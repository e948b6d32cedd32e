import Mathlib.Data.List.FinRange
import Rucix.Data.References
import Rucix.Data.Run
import Rucix.Ipc.Pipe.Model

namespace Rucix.Fs

open Rucix.Data Rucix.Ipc Function

/-! Open files: `vfs_open`, `vfs_close` and `vfs_dup` of `kernel/fs/vfs.c`,
`pipe_create` of `kernel/ipc/pipe.c`, and what `process_fork` and `process_exit`
do to the descriptor tables.

Path resolution and the `open` operation of the file system enter `vfs_open` as
their results.
-/

abbrev maxFiles : Nat := 128

/-- Only pipe files have a `release` operation. -/
inductive FileOps where
  | inode
  | pipe (pipe : Nat) (flags : PipeFlags)
deriving DecidableEq

structure File where
  fOp : FileOps
  fCount : Int
deriving DecidableEq

abbrev FdTable := Fin maxFiles → Option Nat

structure OpenFiles where
  pids : Finset Nat
  fdTable : Nat → FdTable
  files : Nat → Option File
  pipes : Nat → Option Pipe

def FdTable.openCount (table : FdTable) : Nat :=
  ((List.finRange maxFiles).filter fun fd => (table fd).isSome).length

def FdTable.freeSlots (table : FdTable) : List (Fin maxFiles) :=
  (List.finRange maxFiles).filter fun fd => (table fd).isNone

namespace OpenFiles

def setSlot (state : OpenFiles) (pid : Nat) (fd : Fin maxFiles) (file : Option Nat) : OpenFiles :=
  { state with
    fdTable := update state.fdTable pid (update (state.fdTable pid) fd file) }

def setFile (state : OpenFiles) (addr : Nat) (file : Option File) : OpenFiles :=
  { state with files := update state.files addr file }

/-- `resolve` is the error code of finding or creating the inode, `file` the
result of `kmalloc`, and `opened` the error code of `f_op->open`. -/
def vfsOpen (state : OpenFiles) (pid : Nat) (resolve : Int) (file : Option Nat) (opened : Int) :
    Int × OpenFiles :=
  if maxFiles ≤ (state.fdTable pid).openCount then (-1, state)
  else if resolve ≠ 0 then (resolve, state)
  else
    match file with
    | none => (-1, state)
    | some addr =>
      let state := state.setFile addr (some { fOp := .inode, fCount := 1 })
      if opened ≠ 0 then (opened, state.setFile addr none)
      else
        match (state.fdTable pid).freeSlots with
        | fd :: _ => ((fd : Nat), state.setSlot pid fd (some addr))
        | [] => (-1, state.setFile addr none)

/-- `f->f_op->release`, which for a pipe is `pipe_close`. -/
def release (state : OpenFiles) : FileOps → OpenFiles
  | .inode => state
  | .pipe pipe flags =>
    match state.pipes pipe with
    | none => state
    | some found =>
      let (closed, freed) := pipeClose found flags
      { state with pipes := update state.pipes pipe (if freed then none else some closed) }

/-- A slot that refers to a freed file has no defined behaviour; it is cleared
here and nothing else happens. -/
def vfsCloseFd (state : OpenFiles) (pid : Nat) (fd : Fin maxFiles) : Int × OpenFiles :=
  match state.fdTable pid fd with
  | none => (-1, state)
  | some addr =>
    let state := state.setSlot pid fd none
    match state.files addr with
    | none => (0, state)
    | some file =>
      let state := state.release file.fOp
      let file := { file with fCount := file.fCount - 1 }
      (0, state.setFile addr (if file.fCount ≤ 0 then none else some file))

def vfsClose (state : OpenFiles) (pid : Nat) (fd : Int) : Int × OpenFiles :=
  if valid : 0 ≤ fd ∧ fd < maxFiles then state.vfsCloseFd pid ⟨fd.toNat, by omega⟩ else (-1, state)

def vfsDup (state : OpenFiles) (pid : Nat) (oldfd : Int) : Int × OpenFiles :=
  if valid : 0 ≤ oldfd ∧ oldfd < maxFiles then
    match state.fdTable pid ⟨oldfd.toNat, by omega⟩ with
    | none => (-1, state)
    | some addr =>
      match (state.fdTable pid).freeSlots with
      | [] => (-1, state)
      | fd :: _ =>
        let raised := (state.files addr).map fun file => { file with fCount := file.fCount + 1 }
        ((fd : Nat), (state.setFile addr raised).setSlot pid fd (some addr))
  else (-1, state)

/-- `pipe`, `reader` and `writer` are the results of the three `kmalloc` calls. -/
def pipeCreate (state : OpenFiles) (pid : Nat) (pipe reader writer : Option Nat) :
    Int × OpenFiles :=
  match pipe, reader, writer with
  | some pipe, some reader, some writer =>
    let state := { state with pipes := update state.pipes pipe (some Ipc.pipeCreate) }
    let state := state.setFile reader (some { fOp := .pipe pipe .rdonly, fCount := 1 })
    let state := state.setFile writer (some { fOp := .pipe pipe .wronly, fCount := 1 })
    match (state.fdTable pid).freeSlots with
    | fd0 :: fd1 :: _ => (0, (state.setSlot pid fd0 (some reader)).setSlot pid fd1 (some writer))
    | _ => (-1, state)
  | _, _, _ => (-1, state)

/-- `child` is the new process, or `none` when memory for it or its stack runs
out. -/
def processFork (state : OpenFiles) (pid : Nat) (child : Option Nat) : OpenFiles :=
  match child with
  | none => state
  | some child =>
    { state with
      pids := insert child state.pids
      fdTable := update state.fdTable child (state.fdTable pid) }

def processExit (state : OpenFiles) (pid : Nat) : OpenFiles :=
  (List.finRange maxFiles).foldl
    (fun state fd => if (state.fdTable pid fd).isSome then (state.vfsCloseFd pid fd).2 else state) state

end OpenFiles

/-- A call with the process that makes it and the outcomes of its allocations. -/
inductive FileOp where
  | vfsOpen (pid : Nat) (resolve : Int) (file : Option Nat) (opened : Int)
  | vfsClose (pid : Nat) (fd : Int)
  | vfsDup (pid : Nat) (oldfd : Int)
  | pipeCreate (pid : Nat) (pipe reader writer : Option Nat)
  | processFork (pid : Nat) (child : Option Nat)
  | processExit (pid : Nat)

def FileOp.pid : FileOp → Nat
  | .vfsOpen pid .. | .vfsClose pid _ | .vfsDup pid _ | .pipeCreate pid .. | .processFork pid _
  | .processExit pid => pid

/-- `kmalloc` hands out addresses that are not in use, and a new process has a
new pid. -/
def FileOp.Fresh (state : OpenFiles) : FileOp → Prop
  | .vfsOpen _ _ file _ => ∀ addr ∈ file, state.files addr = none
  | .pipeCreate _ pipe reader writer =>
    (∀ addr ∈ pipe, state.pipes addr = none) ∧ (∀ addr ∈ reader, state.files addr = none) ∧
      ∀ addr ∈ writer, state.files addr = none ∧ reader ≠ some addr
  | .processFork _ child => ∀ pid ∈ child, pid ∉ state.pids
  | _ => True

def FileOp.apply (state : OpenFiles) : FileOp → OpenFiles
  | .vfsOpen pid resolve file opened => (state.vfsOpen pid resolve file opened).2
  | .vfsClose pid fd => (state.vfsClose pid fd).2
  | .vfsDup pid oldfd => (state.vfsDup pid oldfd).2
  | .pipeCreate pid pipe reader writer => (state.pipeCreate pid pipe reader writer).2
  | .processFork pid child => state.processFork pid child
  | .processExit pid => state.processExit pid

def FileStep (before : OpenFiles) (op : FileOp) (after : OpenFiles) : Prop :=
  op.pid ∈ before.pids ∧ op.Fresh before ∧ after = op.apply before

def OpenFiles.initial (pids : Finset Nat) : OpenFiles where
  pids := pids
  fdTable := fun _ _ => none
  files := fun _ => none
  pipes := fun _ => none

end Rucix.Fs
