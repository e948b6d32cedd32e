import Mathlib.Data.List.FinRange
import Mathlib.Tactic.Ring

namespace Rucix.Sched

open Function

/-! Processes and the scheduler of `kernel/process/process.c`, `sched_mlfq.c` and
`sched_fair.c`, with `sys_kill` of `kernel/ipc/signal.c`.

A process is named by its pid.  One `next_ready` link serves the run queues and the
sleep queue.  A loop that follows such links takes `fuel` and yields `none` when it
runs out, as it would never end on a cyclic list.
-/

inductive ProcessState where
  | ready
  | running
  | blocked
  | terminated
  | sleeping
deriving DecidableEq, Repr

inductive Policy where
  | other
  | fifo
  | rr
  | cfs
deriving DecidableEq, Repr

inductive SchedClass where
  | mlfq
  | fair
deriving DecidableEq, Repr

abbrev mlfqLevels : Nat := 4

/-- The table has no entry for other priorities. -/
def mlfqQuantums : Int → Int
  | 0 => 2
  | 1 => 5
  | 2 => 10
  | 3 => 20
  | _ => 0

def rlimInfinity : Nat := 2 ^ 64 - 1

structure Process where
  state : ProcessState
  policy : Policy
  schedClass : SchedClass
  priority : Int
  basePriority : Int
  timeSlice : Int
  quantum : Int
  cpuTime : Nat
  vruntime : Nat
  parent : Option Nat
  nextReady : Option Nat
  gid : Nat
  heldLocks : List Nat
  rlimitCpu : Nat
  pendingSignals : BitVec 32
  waitingOn : Nat
deriving DecidableEq, Repr

structure WaitQueue where
  head : Option Nat
  tail : Option Nat
deriving DecidableEq, Repr

structure WaitQueueEntry where
  task : Nat
  next : Option Nat
deriving DecidableEq, Repr

structure RtMutex where
  owner : Option Nat
  waitList : List Nat
deriving DecidableEq, Repr

/-- Where a process is when it is not running ordinary code: in `sleep_on` with
its entry linked, before or after the call of `process_schedule` there, or in
the loop of `rt_mutex_lock`. -/
inductive Frame where
  | sleepOn (queue entry : Nat) (scheduled : Bool)
  | rtMutexLock (lock : Nat) (scheduled : Bool)
deriving DecidableEq, Repr

/-- What the scheduler itself does not touch. -/
structure SyncState where
  waitQueues : Nat → WaitQueue
  entries : Nat → WaitQueueEntry
  rtMutexes : Nat → RtMutex
  frames : Nat → Option Frame

structure Kernel extends SyncState where
  procs : Nat → Process
  processList : List Nat
  current : Nat
  nextPid : Nat
  globalTicks : Nat
  mlfqQueues : Fin mlfqLevels → Option Nat
  mlfqTails : Fin mlfqLevels → Option Nat
  cfsQueue : Option Nat
  sleepQueue : Option Nat

namespace Kernel

def setProc (kernel : Kernel) (pid : Nat) (proc : Process) : Kernel :=
  { kernel with procs := update kernel.procs pid proc }

def setState (kernel : Kernel) (pid : Nat) (state : ProcessState) : Kernel :=
  kernel.setProc pid { kernel.procs pid with state }

def setNextReady (kernel : Kernel) (pid : Nat) (nextReady : Option Nat) : Kernel :=
  kernel.setProc pid { kernel.procs pid with nextReady }

/-- The priority of a process, clamped to the table of levels. -/
def mlfqLevel (priority : Int) : Fin mlfqLevels :=
  if high : mlfqLevels ≤ priority then 3
  else if low : priority < 0 then 0
  else ⟨priority.toNat, by omega⟩

def setLevel (kernel : Kernel) (level : Fin mlfqLevels) (head tail : Option Nat) : Kernel :=
  { kernel with
    mlfqQueues := update kernel.mlfqQueues level head
    mlfqTails := update kernel.mlfqTails level tail }

/-- A level with a first but no last process does not arise. -/
def enqueueTaskMlfq (kernel : Kernel) (pid : Nat) : Kernel :=
  let level := mlfqLevel (kernel.procs pid).priority
  let kernel := (kernel.setState pid .ready).setNextReady pid none
  match kernel.mlfqQueues level, kernel.mlfqTails level with
  | none, _ => kernel.setLevel level (some pid) (some pid)
  | some _, none => kernel
  | some head, some tail => (kernel.setNextReady tail (some pid)).setLevel level (some head) (some pid)

def pickNextTaskMlfq (kernel : Kernel) : Option (Nat × Kernel) :=
  match (List.finRange mlfqLevels).find? fun level => (kernel.mlfqQueues level).isSome with
  | none => none
  | some level =>
    match kernel.mlfqQueues level with
    | none => none
    | some next =>
      let queue := (kernel.procs next).nextReady
      let tail := if queue = none then none else kernel.mlfqTails level
      some (next, (kernel.setLevel level queue tail).setNextReady next none)

/-- The link behind which `enqueue_task_fair` inserts: `none` is `cfs_queue`
itself. -/
def fairPosition (kernel : Kernel) (vruntime : Nat) :
    (fuel : Nat) → (link : Option Nat) → Option (Option Nat)
  | 0, _ => none
  | fuel + 1, link =>
    match link.elim kernel.cfsQueue fun before => (kernel.procs before).nextReady with
    | none => some link
    | some queued =>
      if (kernel.procs queued).vruntime ≤ vruntime then kernel.fairPosition vruntime fuel (some queued)
      else some link

def enqueueTaskFair (fuel : Nat) (kernel : Kernel) (pid : Nat) : Option Kernel := do
  let kernel := kernel.setState pid .ready
  let link ← kernel.fairPosition (kernel.procs pid).vruntime fuel none
  match link with
  | none => return { kernel.setNextReady pid kernel.cfsQueue with cfsQueue := some pid }
  | some before =>
    let kernel := kernel.setNextReady pid (kernel.procs before).nextReady
    return kernel.setNextReady before (some pid)

def pickNextTaskFair (kernel : Kernel) : Option (Nat × Kernel) :=
  match kernel.cfsQueue with
  | none => none
  | some next =>
    let kernel := { kernel with cfsQueue := (kernel.procs next).nextReady }
    some (next, kernel.setNextReady next none)

def enqueueProcess (fuel : Nat) (kernel : Kernel) (pid : Nat) : Option Kernel :=
  if (kernel.procs pid).state ≠ .ready then some kernel
  else
    match (kernel.procs pid).schedClass with
    | .mlfq => some (kernel.enqueueTaskMlfq pid)
    | .fair => kernel.enqueueTaskFair fuel pid

/-- `p->state = PROCESS_STATE_READY; enqueue_process(p);` -/
def makeReady (fuel : Nat) (kernel : Kernel) (pid : Nat) : Option Kernel :=
  (kernel.setState pid .ready).enqueueProcess fuel pid

/-- What `process_schedule` does when the time slice is used up. -/
def demote (kernel : Kernel) (pid : Nat) : Kernel :=
  let proc := kernel.procs pid
  if proc.policy = .other ∧ proc.timeSlice ≤ 0 then
    let priority := if proc.priority < mlfqLevels - 1 then proc.priority + 1 else proc.priority
    let quantum := mlfqQuantums priority
    kernel.setProc pid { proc with priority, quantum, timeSlice := quantum }
  else kernel

/-- Entering `process_schedule` marks the call in the caller's frame. -/
def markScheduled (kernel : Kernel) : Kernel :=
  let frame := (kernel.frames kernel.current).map fun
    | .sleepOn queue entry _ => .sleepOn queue entry true
    | .rtMutexLock lock _ => .rtMutexLock lock true
  { kernel with frames := update kernel.frames kernel.current frame }

def pickNextTask (kernel : Kernel) : Option (Nat × Kernel) :=
  match kernel.pickNextTaskMlfq with
  | some picked => some picked
  | none => kernel.pickNextTaskFair

/-- The first half of `process_schedule`: a running caller is queued again. -/
def requeueCurrent (fuel : Nat) (kernel : Kernel) : Option Kernel :=
  if (kernel.procs kernel.current).state = .running then
    ((kernel.setState kernel.current .ready).demote kernel.current).enqueueProcess fuel kernel.current
  else some kernel

/-- The second half of `process_schedule`.  Without another runnable process, a
caller that is not ready halts and goes on. -/
def switchToNext (kernel : Kernel) : Kernel :=
  match kernel.pickNextTask with
  | some (next, kernel) => { kernel.setState next .running with current := next }
  | none =>
    if (kernel.procs kernel.current).state = .ready then kernel.setState kernel.current .running
    else kernel

def processSchedule (fuel : Nat) (kernel : Kernel) : Option Kernel :=
  (kernel.requeueCurrent fuel).map switchToNext

def addProcess (fuel : Nat) (kernel : Kernel) (proc : Process) : Option Kernel :=
  let pid := kernel.nextPid
  let kernel := kernel.setProc pid proc
  { kernel with
    processList := kernel.processList ++ [pid]
    nextPid := pid + 1
    frames := update kernel.frames pid none }.enqueueProcess fuel pid

def newProcess : Process where
  state := .ready
  policy := .other
  schedClass := .mlfq
  priority := 0
  basePriority := 0
  timeSlice := 2
  quantum := 2
  cpuTime := 0
  vruntime := 0
  parent := none
  nextReady := none
  gid := 0
  heldLocks := []
  rlimitCpu := rlimInfinity
  pendingSignals := 0
  waitingOn := 0

/-- `process_create` and `process_create_kthread`. -/
def processCreate (fuel : Nat) (kernel : Kernel) : Option Kernel :=
  kernel.addProcess fuel newProcess

def processFork (fuel : Nat) (kernel : Kernel) : Option Kernel :=
  let proc := kernel.procs kernel.current
  kernel.addProcess fuel
    { proc with
      parent := some kernel.current
      state := .ready
      nextReady := none
      cpuTime := 0
      timeSlice := proc.quantum }

def getProcessByPid (kernel : Kernel) (pid : Nat) : Option Nat :=
  kernel.processList.find? fun other => other = pid

/-- Deliver a signal, which wakes a blocked process. -/
def signalTask (fuel : Nat) (kernel : Kernel) (sig pid : Nat) : Option Kernel :=
  let proc := kernel.procs pid
  let kernel := kernel.setProc pid
    { proc with pendingSignals := proc.pendingSignals ||| (1#32 <<< sig) }
  if proc.state = .blocked then kernel.makeReady fuel pid else some kernel

/-- The loops of `sys_kill` over the process list. -/
def signalEach (fuel : Nat) (sig : Nat) : Kernel → List Nat → Option Kernel
  | kernel, [] => some kernel
  | kernel, pid :: rest => do
    let kernel ← kernel.signalTask fuel sig pid
    signalEach fuel sig kernel rest

/-- The process group that a `pid` of 0 or below -1 names. -/
def killGroup (kernel : Kernel) (pid : Int) : Nat :=
  if pid = 0 then (kernel.procs kernel.current).gid else (-pid).toNat

def sysKill (fuel : Nat) (kernel : Kernel) (pid sig : Int) : Option (Int × Kernel) :=
  let valid := 0 < sig ∧ sig < 32
  if 0 < pid then
    match kernel.getProcessByPid pid.toNat with
    | none => some (-1, kernel)
    | some target =>
      if valid then do return (0, ← kernel.signalTask fuel sig.toNat target)
      else some (-1, kernel)
  else
    if pid = -1 then
      let targets := kernel.processList.filter fun pid => 1 < pid ∧ pid ≠ kernel.current
      if valid then do return (0, ← signalEach fuel sig.toNat kernel targets) else some (0, kernel)
    else
      let pgid := kernel.killGroup pid
      let targets := kernel.processList.filter fun pid => (kernel.procs pid).gid = pgid
      if valid ∧ targets ≠ [] then do return (0, ← signalEach fuel sig.toNat kernel targets)
      else some (-1, kernel)

/-- The loop of `process_exit` over the process list. -/
def reparent (kernel : Kernel) (parent initProc : Option Nat) : Kernel :=
  { kernel with
    procs := fun pid =>
      let proc := kernel.procs pid
      if pid ∈ kernel.processList ∧ proc.parent = parent then { proc with parent := initProc }
      else proc }

def reparentChildren (kernel : Kernel) : Kernel :=
  kernel.reparent (some kernel.current) ((kernel.getProcessByPid 1).or (kernel.getProcessByPid 0))

/-- The wake-up of a blocked parent in `process_exit`. -/
def wakeParent (fuel : Nat) (kernel : Kernel) : Option Kernel :=
  match (kernel.procs kernel.current).parent with
  | none => some kernel
  | some parent =>
    if (kernel.procs parent).state = .blocked then kernel.makeReady fuel parent else some kernel

/-- `process_exit` after the descriptors are closed. -/
def processExit (fuel : Nat) (kernel : Kernel) : Option Kernel := do
  let kernel ← kernel.reparentChildren.wakeParent fuel
  (kernel.setState kernel.current .terminated).processSchedule fuel

def lastReady (kernel : Kernel) : (fuel pid : Nat) → Option Nat
  | 0, _ => none
  | fuel + 1, pid =>
    match (kernel.procs pid).nextReady with
    | none => some pid
    | some next => kernel.lastReady fuel next

def linkSleeper (fuel : Nat) (kernel : Kernel) (pid : Nat) : Option Kernel :=
  match kernel.sleepQueue with
  | none => some ({ kernel with sleepQueue := some pid }.setNextReady pid none)
  | some first => do
    let last ← kernel.lastReady fuel first
    return (kernel.setNextReady last (some pid)).setNextReady pid none

def processSleep (fuel : Nat) (kernel : Kernel) (ticks : Nat) : Option Kernel := do
  let pid := kernel.current
  let kernel := kernel.setProc pid
    { kernel.procs pid with state := .sleeping, waitingOn := kernel.globalTicks + ticks }
  let kernel ← kernel.linkSleeper fuel pid
  kernel.processSchedule fuel

/-- Let the link to a sleeper, that of `prev` or `sleep_queue`, skip it. -/
def unlinkSleeper (kernel : Kernel) (prev link : Option Nat) : Kernel :=
  match prev with
  | some before => kernel.setNextReady before link
  | none => { kernel with sleepQueue := link }

/-- The wake-up loop of `scheduler_tick`. -/
def wakeSleepers (fuel : Nat) : (steps : Nat) → Kernel → (prev pointer : Option Nat) → Option Kernel
  | 0, _, _, _ => none
  | _ + 1, kernel, _, none => some kernel
  | steps + 1, kernel, prev, some pid =>
    let proc := kernel.procs pid
    if proc.waitingOn ≤ kernel.globalTicks then do
      let kernel := kernel.unlinkSleeper prev proc.nextReady
      let kernel := kernel.setProc pid { kernel.procs pid with state := .ready, waitingOn := 0 }
      let kernel ← kernel.enqueueProcess fuel pid
      wakeSleepers fuel steps kernel prev proc.nextReady
    else wakeSleepers fuel steps kernel (some pid) proc.nextReady

/-- The accounting at the start of `scheduler_tick`. -/
def accountTick (kernel : Kernel) : Kernel :=
  let kernel := { kernel with globalTicks := kernel.globalTicks + 1 }
  let proc := kernel.procs kernel.current
  kernel.setProc kernel.current
    { proc with
      cpuTime := proc.cpuTime + 1
      timeSlice := proc.timeSlice - 1
      vruntime := if proc.policy = .cfs then proc.vruntime + 1 else proc.vruntime }

def overCpuLimit (proc : Process) : Bool :=
  proc.rlimitCpu ≠ rlimInfinity ∧ proc.rlimitCpu < proc.cpuTime

def enforceCpuLimit (fuel : Nat) (kernel : Kernel) : Option Kernel :=
  if overCpuLimit (kernel.procs kernel.current) then
    (kernel.sysKill fuel kernel.current 24).map Prod.snd
  else some kernel

def schedulerTick (fuel : Nat) (kernel : Kernel) : Option Kernel := do
  let kernel ← kernel.accountTick.enforceCpuLimit fuel
  let kernel ← wakeSleepers fuel fuel kernel none kernel.sleepQueue
  let proc := kernel.procs kernel.current
  if proc.timeSlice ≤ 0 ∧ proc.policy ≠ .fifo then kernel.processSchedule fuel else some kernel

end Kernel

end Rucix.Sched
