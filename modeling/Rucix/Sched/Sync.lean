import Rucix.Data.Links
import Rucix.Data.Run
import Rucix.Sched.Model

namespace Rucix.Sched

open Rucix.Data Function

/-! Wait queues (`kernel/sync/waitqueue.c`), rt mutexes (`kernel/sync/rtmutex.c`)
and the steps of the whole kernel.

A wait-queue entry is named by its address in the stack frame of `sleep_on`.
-/

namespace Kernel

def setFrame (kernel : Kernel) (pid : Nat) (frame : Option Frame) : Kernel :=
  { kernel with frames := update kernel.frames pid frame }

def setQueue (kernel : Kernel) (queue : Nat) (value : WaitQueue) : Kernel :=
  { kernel with waitQueues := update kernel.waitQueues queue value }

def setEntry (kernel : Kernel) (entry : Nat) (value : WaitQueueEntry) : Kernel :=
  { kernel with entries := update kernel.entries entry value }

/-- The entry of the current process, linked behind the tail of a wait queue. -/
def linkEntry (kernel : Kernel) (queue entry : Nat) : Kernel :=
  let kernel := kernel.setEntry entry { task := kernel.current, next := none }
  match (kernel.waitQueues queue).tail with
  | some tail =>
    (kernel.setEntry tail { kernel.entries tail with next := some entry }).setQueue queue
      { kernel.waitQueues queue with tail := some entry }
  | none => kernel.setQueue queue { head := some entry, tail := some entry }

/-- `sleep_on` up to the call of `process_schedule`. -/
def sleepOn (kernel : Kernel) (queue entry : Nat) : Kernel :=
  ((kernel.linkEntry queue entry).setState kernel.current .blocked).setFrame kernel.current
    (some (.sleepOn queue entry false))

def popEntry (kernel : Kernel) (queue entry : Nat) : Kernel :=
  let next := (kernel.entries entry).next
  kernel.setQueue queue
    { head := next, tail := if next = none then none else (kernel.waitQueues queue).tail }

def wakeUp (fuel : Nat) (kernel : Kernel) (queue : Nat) : Option Kernel :=
  match (kernel.waitQueues queue).head with
  | none => some kernel
  | some entry => (kernel.popEntry queue entry).makeReady fuel (kernel.entries entry).task

def wakeUpAll (fuel : Nat) (queue : Nat) : (steps : Nat) → Kernel → Option Kernel
  | 0, _ => none
  | steps + 1, kernel =>
    match (kernel.waitQueues queue).head with
    | none => some kernel
    | some entry => do
      let kernel ← (kernel.popEntry queue entry).makeReady fuel (kernel.entries entry).task
      wakeUpAll fuel queue steps kernel

def setMutex (kernel : Kernel) (lock : Nat) (mutex : RtMutex) : Kernel :=
  { kernel with rtMutexes := update kernel.rtMutexes lock mutex }

def setPriority (kernel : Kernel) (pid : Nat) (priority : Int) : Kernel :=
  kernel.setProc pid { kernel.procs pid with priority }

def setHeldLocks (kernel : Kernel) (pid : Nat) (heldLocks : List Nat) : Kernel :=
  kernel.setProc pid { kernel.procs pid with heldLocks }

/-- `lock->owner = current_process` and the entry in `held_locks`. -/
def takeMutex (kernel : Kernel) (lock : Nat) : Kernel :=
  (kernel.setMutex lock { kernel.rtMutexes lock with owner := some kernel.current }).setHeldLocks
    kernel.current (lock :: (kernel.procs kernel.current).heldLocks)

def rtMutexAdjustPrioChain (kernel : Kernel) (owner : Nat) (priority : Int) : (depth : Nat) → Kernel
  | 0 => kernel
  | depth + 1 =>
    if (kernel.procs owner).priority ≤ priority then kernel
    else
      let kernel := kernel.setPriority owner priority
      if (kernel.procs owner).state = .blocked then kernel
      else kernel.rtMutexAdjustPrioChain owner priority depth

/-- One pass of the loop of `rt_mutex_lock` up to the call of
`process_schedule`. -/
def blockOnMutex (kernel : Kernel) (lock : Nat) : Kernel :=
  (kernel.setState kernel.current .blocked).setFrame kernel.current
    (some (.rtMutexLock lock false))

def rtMutexLock (kernel : Kernel) (lock : Nat) : Kernel :=
  match (kernel.rtMutexes lock).owner with
  | none => kernel.takeMutex lock
  | some owner =>
    if owner = kernel.current then kernel
    else
      let mutex := kernel.rtMutexes lock
      let kernel := kernel.setMutex lock { mutex with waitList := mutex.waitList ++ [kernel.current] }
      let priority := (kernel.procs kernel.current).priority
      let kernel :=
        if priority < (kernel.procs owner).priority then
          kernel.rtMutexAdjustPrioChain owner priority 10
        else kernel
      kernel.blockOnMutex lock

/-- `list_del(&waiter.list)` and the return of `rt_mutex_lock`. -/
def leaveMutexQueue (kernel : Kernel) (lock : Nat) : Kernel :=
  let mutex := kernel.rtMutexes lock
  (kernel.setMutex lock { mutex with waitList := mutex.waitList.erase kernel.current }).setFrame
    kernel.current none

/-- The loop of `rt_mutex_lock` after `process_schedule` has returned. -/
def rtMutexRetry (kernel : Kernel) (lock : Nat) : Kernel :=
  match (kernel.rtMutexes lock).owner with
  | none => (kernel.takeMutex lock).leaveMutexQueue lock
  | some owner =>
    if owner = kernel.current then kernel.leaveMutexQueue lock else kernel.blockOnMutex lock

/-- `rt_mutex_trylock` with the value it returns. -/
def rtMutexTrylock (kernel : Kernel) (lock : Nat) : Int × Kernel :=
  match (kernel.rtMutexes lock).owner with
  | none => (1, kernel.takeMutex lock)
  | some _ => (0, kernel)

/-- The most urgent priority among the owner's own and those of the waiters on
the locks it holds. -/
def rtMutexRestorePrio (kernel : Kernel) (owner : Nat) : Kernel :=
  let waiters := (kernel.procs owner).heldLocks.flatMap fun lock => (kernel.rtMutexes lock).waitList
  let highest := waiters.foldl
    (fun highest waiter => min highest (kernel.procs waiter).priority) (kernel.procs owner).basePriority
  kernel.setPriority owner highest

/-- `rt_mutex_unlock` by the owner up to the choice of the next waiter. -/
def releaseMutex (kernel : Kernel) (lock : Nat) : Kernel :=
  let proc := kernel.procs kernel.current
  let kernel := kernel.setHeldLocks kernel.current (proc.heldLocks.erase lock)
  let kernel := kernel.setMutex lock { kernel.rtMutexes lock with owner := none }
  if proc.priority ≠ proc.basePriority then kernel.rtMutexRestorePrio kernel.current else kernel

/-- The first waiter of the most urgent priority below 999. -/
def bestWaiter (kernel : Kernel) (lock : Nat) : Option Nat :=
  ((kernel.rtMutexes lock).waitList.foldl
    (fun (best : Int × Option Nat) waiter =>
      let priority := (kernel.procs waiter).priority
      if priority < best.1 then (priority, some waiter) else best) (999, none)).2

def rtMutexUnlock (fuel : Nat) (kernel : Kernel) (lock : Nat) : Option Kernel :=
  if (kernel.rtMutexes lock).owner ≠ some kernel.current then some kernel
  else
    let kernel := kernel.releaseMutex lock
    match kernel.bestWaiter lock with
    | none => some kernel
    | some waiter => kernel.makeReady fuel waiter

end Kernel

/-- `sleepReturn` and `rtMutexRetry` continue a function after the
`process_schedule` it called has returned. -/
inductive KernelOp where
  | processCreate
  | processFork
  | processSchedule
  | schedulerTick
  | processSleep (ticks : Nat)
  | sleepOn (queue entry : Nat)
  | sleepReturn (queue entry : Nat)
  | wakeUp (queue : Nat)
  | wakeUpAll (queue : Nat)
  | rtMutexLock (lock : Nat)
  | rtMutexRetry (lock : Nat)
  | rtMutexUnlock (lock : Nat)
  | sysKill (pid sig : Int)
  | processExit

/-- The current process runs ordinary code. -/
def Kernel.Executing (kernel : Kernel) : Prop :=
  kernel.frames kernel.current = none ∧ (kernel.procs kernel.current).state ≠ .terminated

/-- When a step can happen.  Wake-ups, signals and timer ticks also come from
interrupts, so they need nothing of the current process.  The stack frames of
different calls do not overlap. -/
def KernelOp.Enabled (kernel : Kernel) : KernelOp → Prop
  | .sleepOn _ entry => kernel.Executing ∧
      ∀ pid queue scheduled, kernel.frames pid ≠ some (.sleepOn queue entry scheduled)
  | .sleepReturn queue entry => kernel.frames kernel.current = some (.sleepOn queue entry true)
  | .rtMutexRetry lock => kernel.frames kernel.current = some (.rtMutexLock lock true)
  | .processFork | .processSleep _ | .rtMutexLock _ | .processExit => kernel.Executing
  | _ => True

def KernelOp.perform (fuel : Nat) (kernel : Kernel) : KernelOp → Option Kernel
  | .processCreate => kernel.processCreate fuel
  | .processFork => kernel.processFork fuel
  | .processSchedule => kernel.markScheduled.processSchedule fuel
  | .schedulerTick => kernel.schedulerTick fuel
  | .processSleep ticks => kernel.processSleep fuel ticks
  | .sleepOn queue entry => some (kernel.sleepOn queue entry)
  | .sleepReturn _ _ => some (kernel.setFrame kernel.current none)
  | .wakeUp queue => kernel.wakeUp fuel queue
  | .wakeUpAll queue => Kernel.wakeUpAll fuel queue fuel kernel
  | .rtMutexLock lock => some (kernel.rtMutexLock lock)
  | .rtMutexRetry lock => some (kernel.rtMutexRetry lock)
  | .rtMutexUnlock lock => kernel.rtMutexUnlock fuel lock
  | .sysKill pid sig => (kernel.sysKill fuel pid sig).map Prod.snd
  | .processExit => kernel.processExit fuel

def KernelStep (before : Kernel) (op : KernelOp) (after : Kernel) : Prop :=
  op.Enabled before ∧ ∃ fuel, op.perform fuel before = some after

/-- The state that `process_init` leaves. -/
def Kernel.boot : Kernel where
  procs := update (fun _ => { newProcess with state := .terminated }) 0
    { newProcess with state := .running }
  processList := [0]
  current := 0
  nextPid := 1
  globalTicks := 0
  mlfqQueues := fun _ => none
  mlfqTails := fun _ => none
  cfsQueue := none
  sleepQueue := none
  waitQueues := fun _ => { head := none, tail := none }
  entries := fun _ => { task := 0, next := none }
  rtMutexes := fun _ => { owner := none, waitList := [] }
  frames := fun _ => none

end Rucix.Sched
