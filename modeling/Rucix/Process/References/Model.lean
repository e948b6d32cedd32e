import Rucix.Data.References
import Rucix.Data.Run
import Rucix.Security.Seccomp.Model

namespace Rucix.Process

open Rucix.Data Rucix.Security Function

/-! What processes hold references to: `process_create`, `process_fork` and
`process_exit` of `kernel/process/process.c` with `cgroup_fork` and `cgroup_exit`
of `kernel/process/cgroup.c` and `seccomp_exit` of `kernel/security/seccomp.c`.

`none` as a result is an access to freed memory or a null pointer, or a loop that ran
out of fuel.  No cgroup subsystem is registered, so the loops over `subsystems` do
nothing.
-/

structure Proc where
  seccompFilter : Option Nat
  cgroups : Option Nat
deriving DecidableEq

structure CssSet where
  refCount : Int
deriving DecidableEq

abbrev initCssSet : Nat := 0

structure ProcessTable where
  live : Finset Nat
  procs : Nat → Proc
  filters : FilterHeap
  cssSets : Nat → Option CssSet

namespace ProcessTable

def setProc (table : ProcessTable) (pid : Nat) (proc : Proc) : ProcessTable :=
  { table with procs := update table.procs pid proc }

def setCssSet (table : ProcessTable) (addr : Nat) (set : Option CssSet) : ProcessTable :=
  { table with cssSets := update table.cssSets addr set }

def spawn (table : ProcessTable) (child : Nat) (proc : Proc) : ProcessTable :=
  { table.setProc child proc with live := insert child table.live }

def cgroupFork (table : ProcessTable) (current : Option Nat) (child : Nat) : Option ProcessTable :=
  let source := match current with
    | none => some initCssSet
    | some parent => (table.procs parent).cgroups
  source.bind fun addr => (table.cssSets addr).map fun set =>
    (table.setCssSet addr (some { refCount := set.refCount + 1 })).setProc child
      { table.procs child with cgroups := some addr }

def cgroupExit (table : ProcessTable) (pid : Nat) : Option ProcessTable :=
  match (table.procs pid).cgroups with
  | none => some table
  | some addr => (table.cssSets addr).map fun set =>
    let left : CssSet := { refCount := set.refCount - 1 }
    let kept := if left.refCount ≤ 0 ∧ addr ≠ initCssSet then none else some left
    (table.setCssSet addr kept).setProc pid { table.procs pid with cgroups := none }

end ProcessTable

/-- A filter after one reference is dropped. -/
def dropFilter (filter : SeccompFilter) : Option SeccompFilter :=
  if filter.refCount - 1 ≤ 0 then none else some { filter with refCount := filter.refCount - 1 }

/-- The loop of `seccomp_exit`. -/
def releaseChain : (fuel : Nat) → FilterHeap → Option Nat → Option FilterHeap
  | _, filters, none => some filters
  | 0, _, some _ => none
  | fuel + 1, filters, some addr =>
    match filters addr with
    | none => none
    | some filter => releaseChain fuel (update filters addr (dropFilter filter)) filter.prev

namespace ProcessTable

def seccompExit (fuel : Nat) (table : ProcessTable) (pid : Nat) : Option ProcessTable :=
  (releaseChain fuel table.filters (table.procs pid).seccompFilter).map fun filters =>
    { table with filters }.setProc pid { table.procs pid with seccompFilter := none }

def processExit (fuel : Nat) (table : ProcessTable) (pid : Nat) : Option ProcessTable :=
  (table.cgroupExit pid).bind fun table => (table.seccompExit fuel pid).map fun table =>
    { table with live := table.live.erase pid }

/-- `child` is the new pid, or `none` when an allocation fails. -/
def processCreate (table : ProcessTable) : (child : Option Nat) → ProcessTable
  | none => table
  | some child => table.spawn child { seccompFilter := none, cgroups := none }

/-- The child is a copy of the caller: neither `seccomp_fork` nor `cgroup_fork`
is called. -/
def processFork (table : ProcessTable) (pid : Nat) : (child : Option Nat) → ProcessTable
  | none => table
  | some child => table.spawn child (table.procs pid)

/-- `seccomp_attach_filter` called by `pid`. -/
def attachFilter (table : ProcessTable) (pid : Nat) (prog : SockFprog) (memory : Option Nat)
    (buffer : Bool) : Option ProcessTable :=
  let called : SeccompState := ⟨table.filters, some ⟨(table.procs pid).seccompFilter⟩⟩
  (seccompAttachFilter called prog memory buffer).map fun (_, state) =>
    { table with filters := state.filters }.setProc pid
      { table.procs pid with seccompFilter := state.currentProcess.bind (·.seccompFilter) }

/-- `process_init`: the kernel process takes a reference on `init_css_set`. -/
def boot : Option ProcessTable :=
  cgroupFork
    { live := {0}
      procs := fun _ => { seccompFilter := none, cgroups := none }
      filters := fun _ => none
      cssSets := update (fun _ => none) initCssSet (some { refCount := 1 }) } none 0

end ProcessTable

inductive ProcessOp where
  | create (child : Option Nat)
  | fork (child : Option Nat)
  | attach (prog : SockFprog) (memory : Option Nat) (buffer : Bool)
  | exit

/-- Pids are new, and `kmalloc` hands out memory that is not in use. -/
def ProcessOp.Fresh (table : ProcessTable) : ProcessOp → Prop
  | .create child | .fork child => ∀ pid ∈ child, pid ∉ table.live
  | .attach _ memory _ => ∀ addr ∈ memory, table.filters addr = none
  | .exit => True

def ProcessTable.perform (fuel : Nat) (table : ProcessTable) (pid : Nat) : ProcessOp → Option ProcessTable
  | .create child => some (table.processCreate child)
  | .fork child => some (table.processFork pid child)
  | .attach prog memory buffer => table.attachFilter pid prog memory buffer
  | .exit => table.processExit fuel pid

def ProcessStep (before : ProcessTable) (call : Nat × ProcessOp) (after : ProcessTable) : Prop :=
  call.1 ∈ before.live ∧ call.2.Fresh before ∧ ∃ fuel, before.perform fuel call.1 call.2 = some after

end Rucix.Process
