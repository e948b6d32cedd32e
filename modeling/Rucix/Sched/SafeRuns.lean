import Rucix.Sched.Timed

namespace Rucix.Sched

open Rucix.Data List

/-! Wait queues and rt mutexes, and runs of the whole kernel. -/

namespace Kernel

variable {kernel after : Kernel} {pid fuel queue entry lock : Nat}

theorem SameQueues.sync (sync : SyncState) : SameQueues kernel { kernel with toSyncState := sync } :=
  ⟨⟨fun _ => rfl, fun _ => rfl, rfl, rfl⟩, rfl, rfl, rfl⟩

theorem SameQueues.refl : SameQueues kernel kernel :=
  ⟨⟨fun _ => rfl, fun _ => rfl, rfl, rfl⟩, rfl, rfl, rfl⟩

theorem SameTasks.detached (same : SameTasks kernel after) : after.Detached pid ↔ kernel.Detached pid := by
  rw [Detached, Detached, same.state]

theorem makeReady_eq (mlfq : (kernel.procs pid).schedClass = .mlfq) :
    kernel.makeReady fuel pid = some ((kernel.setState pid .ready).enqueueTaskMlfq pid) :=
  enqueueProcess_eq (by simpa [setState] using mlfq) (by simp [setState])

theorem makeReady_requeued (mlfq : (kernel.procs pid).schedClass = .mlfq)
    (done : kernel.makeReady fuel pid = some after) : Requeued kernel after pid := by
  rw [makeReady_eq mlfq] at done
  cases done
  have requeued := enqueueTaskMlfq_requeued (kernel.setState pid .ready) pid
  refine ⟨fun other => ?_, fun other => ?_, requeued.nextPid, requeued.current, requeued.globalTicks,
    requeued.processList, requeued.sync⟩
  · rw [requeued.state]
    split
    · rfl
    · rename_i different
      simp [setState, different]
  · rw [requeued.schedClass]
    by_cases same : other = pid <;> simp [setState, same]

theorem SameQueues.linkEntry (kernel : Kernel) (queue entry : Nat) :
    SameQueues kernel (kernel.linkEntry queue entry) := by
  simp only [Kernel.linkEntry]
  split
  · exact SameQueues.sync ..
  · exact SameQueues.sync ..

theorem SameQueues.popEntry (kernel : Kernel) (queue entry : Nat) : SameQueues kernel (kernel.popEntry queue entry) :=
  SameQueues.sync ..

/-- The tasks on a wait queue, in order, all detached and different. -/
def SafeToWake (kernel : Kernel) (queue : Nat) (entries : List Nat) : Prop :=
  Linked (fun entry => (kernel.entries entry).next) (kernel.waitQueues queue).head entries none ∧
    (entries.map fun entry => (kernel.entries entry).task).Nodup ∧
    ∀ entry ∈ entries, kernel.Detached (kernel.entries entry).task

theorem SafeToWake.wake (safe : kernel.SafeToWake queue (entry :: rest))
    (requeued : Requeued (kernel.popEntry queue entry) after (kernel.entries entry).task) :
    after.SafeToWake queue rest := by
  obtain ⟨linked, distinct, detached⟩ := safe
  obtain ⟨fresh, distinct⟩ := nodup_cons.mp distinct
  obtain ⟨sync⟩ := after
  cases requeued.sync
  refine ⟨by simpa [popEntry] using linked.2, distinct, fun other member => ?_⟩
  have different : (kernel.entries other).task ≠ (kernel.entries entry).task := fun same =>
    fresh (mem_map.mpr ⟨other, member, same⟩)
  have same := (requeued.state _).trans (if_neg different)
  rw [Detached, same]
  exact detached other (mem_cons_of_mem _ member)

def OwnedByOther (kernel : Kernel) (lock : Nat) : Prop :=
  ∃ owner, owner ≠ kernel.current ∧ (kernel.rtMutexes lock).owner = some owner

namespace SameQueues

variable (kernel)

theorem setPriority (pid : Nat) (priority : Int) : SameQueues kernel (kernel.setPriority pid priority) :=
  SameQueues.setProc rfl rfl rfl

theorem setHeldLocks : SameQueues kernel (kernel.setHeldLocks pid heldLocks) :=
  SameQueues.setProc rfl rfl rfl

theorem setMutex (lock : Nat) (mutex : RtMutex) : SameQueues kernel (kernel.setMutex lock mutex) :=
  SameQueues.sync ..

theorem takeMutex : SameQueues kernel (kernel.takeMutex lock) :=
  (setMutex ..).trans (setHeldLocks ..)

theorem leaveMutexQueue : SameQueues kernel (kernel.leaveMutexQueue lock) :=
  SameQueues.sync ..

theorem rtMutexAdjustPrioChain (owner : Nat) (priority : Int) (depth : Nat) :
    SameQueues kernel (kernel.rtMutexAdjustPrioChain owner priority depth) := by
  induction depth generalizing kernel with
  | zero => exact refl
  | succ depth ih =>
    simp only [Kernel.rtMutexAdjustPrioChain]
    split
    · exact refl
    · have boosted := setPriority kernel owner priority
      split
      · exact boosted
      · exact boosted.trans (ih _)

theorem releaseMutex (lock : Nat) : SameQueues kernel (kernel.releaseMutex lock) := by
  simp only [Kernel.releaseMutex]
  split
  · exact ((setHeldLocks ..).trans (setMutex ..)).trans (setPriority ..)
  · exact (setHeldLocks ..).trans (setMutex ..)

end SameQueues

namespace Consistent

variable (consistent : kernel.Consistent)
include consistent

theorem classes (pid : Nat) : (kernel.procs pid).schedClass = .mlfq := by
  obtain ⟨items, queued⟩ := consistent
  exact queued.classes pid

theorem sleepOn (detached : kernel.Detached kernel.current) :
    (kernel.sleepOn queue entry).Consistent := by
  have linked := SameQueues.linkEntry kernel queue entry
  exact ((consistent.congr linked).block (linked.detached.mpr detached)).congr (SameQueues.sync ..)

theorem wakeUp (detached : ∀ entry, (kernel.waitQueues queue).head = some entry →
      kernel.Detached (kernel.entries entry).task) (done : kernel.wakeUp fuel queue = some after) :
    after.Consistent := by
  simp only [Kernel.wakeUp] at done
  split at done
  · cases done
    exact consistent
  · rename_i entry head
    have popped := SameQueues.popEntry kernel queue entry
    exact (consistent.congr popped).makeReady (popped.detached.mpr (detached entry head)) done

theorem wakeUpAll (safe : kernel.SafeToWake queue entries)
    (done : Kernel.wakeUpAll fuel queue steps kernel = some after) : after.Consistent := by
  induction steps generalizing kernel entries with
  | zero => cases done
  | succ steps ih =>
    have head := safe.1.head_eq
    cases entries with
    | nil =>
      simp only [Kernel.wakeUpAll, head] at done
      cases done
      exact consistent
    | cons entry rest =>
      simp only [Kernel.wakeUpAll, head] at done
      obtain ⟨middle, woken, done⟩ := Option.bind_eq_some_iff.mp done
      have popped := SameQueues.popEntry kernel queue entry
      have consistent := consistent.congr popped
      have detached := popped.detached.mpr (safe.2.2 entry mem_cons_self)
      exact ih (consistent.makeReady detached woken)
        (safe.wake (makeReady_requeued (consistent.classes _) woken)) done

theorem blockOnMutex (detached : kernel.Detached kernel.current) :
    (kernel.blockOnMutex lock).Consistent :=
  (consistent.block detached).congr (SameQueues.sync ..)

theorem rtMutexLock (detached : kernel.OwnedByOther lock → kernel.Detached kernel.current) :
    (kernel.rtMutexLock lock).Consistent := by
  simp only [Kernel.rtMutexLock]
  split
  · exact consistent.congr (SameQueues.takeMutex ..)
  · rename_i owner owned
    split
    · exact consistent
    · rename_i different
      have detached := detached ⟨owner, different, owned⟩
      have joined := SameQueues.setMutex kernel lock
        { kernel.rtMutexes lock with waitList := (kernel.rtMutexes lock).waitList ++ [kernel.current] }
      split
      · have boosted := joined.trans (SameQueues.rtMutexAdjustPrioChain _ owner
          (kernel.procs kernel.current).priority 10)
        refine (consistent.congr boosted).blockOnMutex (boosted.detached.mpr ?_)
        rwa [boosted.current]
      · exact (consistent.congr joined).blockOnMutex (joined.detached.mpr detached)

theorem rtMutexRetry (detached : kernel.OwnedByOther lock → kernel.Detached kernel.current) :
    (kernel.rtMutexRetry lock).Consistent := by
  simp only [Kernel.rtMutexRetry]
  split
  · exact consistent.congr ((SameQueues.takeMutex ..).trans (SameQueues.leaveMutexQueue ..))
  · rename_i owner owned
    split
    · exact consistent.congr (SameQueues.leaveMutexQueue ..)
    · rename_i different
      exact consistent.blockOnMutex (detached ⟨owner, different, owned⟩)

theorem rtMutexUnlock (detached : (kernel.rtMutexes lock).owner = some kernel.current →
      ∀ waiter, (kernel.releaseMutex lock).bestWaiter lock = some waiter → kernel.Detached waiter)
    (done : kernel.rtMutexUnlock fuel lock = some after) : after.Consistent := by
  simp only [Kernel.rtMutexUnlock] at done
  split at done
  · cases done
    exact consistent
  · rename_i owned
    have released := SameQueues.releaseMutex kernel lock
    split at done
    · cases done
      exact consistent.congr released
    · rename_i waiter chosen
      have detached := detached (not_not.mp owned) waiter chosen
      exact (consistent.congr released).makeReady (released.detached.mpr detached) done

end Consistent

end Kernel

/-- Only detached processes go to sleep or are woken by the wait queues and the rt mutexes,
which do not look at the state of the process they wake. -/
def KernelOp.Safe (kernel : Kernel) : KernelOp → Prop
  | .sleepOn _ _ | .processSleep _ => kernel.Detached kernel.current
  | .rtMutexLock lock | .rtMutexRetry lock =>
    kernel.OwnedByOther lock → kernel.Detached kernel.current
  | .wakeUp queue => ∀ entry, (kernel.waitQueues queue).head = some entry →
      kernel.Detached (kernel.entries entry).task
  | .wakeUpAll queue => ∃ entries, kernel.SafeToWake queue entries
  | .rtMutexUnlock lock => (kernel.rtMutexes lock).owner = some kernel.current →
      ∀ waiter, (kernel.releaseMutex lock).bestWaiter lock = some waiter → kernel.Detached waiter
  | _ => True

theorem Kernel.Consistent.step {after : Kernel} (consistent : before.Consistent) (safe : op.Safe before)
    (step : KernelStep before op after) : after.Consistent := by
  obtain ⟨-, fuel, done⟩ := step
  cases op with
  | processCreate => exact consistent.addProcess done rfl
  | processFork => exact consistent.processFork done
  | processSchedule => exact (consistent.congr (SameQueues.sync ..)).processSchedule done
  | schedulerTick => exact consistent.schedulerTick done
  | processSleep ticks => exact consistent.processSleep safe done
  | sleepOn queue entry =>
    cases done
    exact consistent.sleepOn safe
  | sleepReturn queue entry =>
    cases done
    exact consistent.congr (SameQueues.sync ..)
  | wakeUp queue => exact consistent.wakeUp safe done
  | wakeUpAll queue =>
    obtain ⟨entries, safe⟩ := safe
    exact consistent.wakeUpAll safe done
  | rtMutexLock lock =>
    cases done
    exact consistent.rtMutexLock safe
  | rtMutexRetry lock =>
    cases done
    exact consistent.rtMutexRetry safe
  | rtMutexUnlock lock => exact consistent.rtMutexUnlock safe done
  | sysKill pid sig =>
    obtain ⟨⟨status, final⟩, killed, rfl⟩ := Option.map_eq_some_iff.mp done
    exact consistent.sysKill killed
  | processExit => exact consistent.processExit done

theorem Kernel.boot_consistent : Kernel.boot.Consistent := by
  refine ⟨fun _ => [], ⟨⟨fun place => ?_, by simp, by simp⟩, fun _ => rfl⟩, fun pid ready => ?_,
    by simp, by simp, fun pid unborn => ⟨?_, by simp⟩, by decide, fun pid => ?_⟩
  · cases place <;> rfl
  · by_cases first : pid = 0 <;> simp [boot, first] at ready
  · have unborn : 1 ≤ pid := unborn
    simp [boot, show pid ≠ 0 by omega]
  · by_cases first : pid = 0 <;> simp [boot, newProcess, first]

/-- Each process is in at most one of the lists and there once, a ready process
is in exactly one run queue, and each tail is the last process of its list. -/
def Kernel.UniqueMembership (kernel : Kernel) : Prop :=
  ∃ items, kernel.Wired items ∧ ∀ pid, (kernel.procs pid).state = .ready →
    ∃! place, place ≠ .sleep ∧ pid ∈ items place

theorem Kernel.Consistent.uniqueMembership {kernel : Kernel} (consistent : kernel.Consistent) :
    kernel.UniqueMembership := by
  obtain ⟨items, queued⟩ := consistent
  refine ⟨items, queued.toWired, fun pid ready => ?_⟩
  obtain ⟨place, runQueue, listed⟩ := (queued.ready pid ready).resolve_left (by simp)
  exact ⟨place, ⟨runQueue, listed⟩, fun other also => queued.lists.disjoint other place pid also.2 listed⟩

theorem safe_run_unique_membership {trace : List KernelOp} {kernel : Kernel}
    (run : Run (fun before op after => KernelStep before op after ∧ op.Safe before) Kernel.boot trace
      kernel) : kernel.UniqueMembership := by
  refine Kernel.Consistent.uniqueMembership (run.invariant Kernel.boot_consistent ?_)
  rintro before op after consistent ⟨step, safe⟩
  exact consistent.step safe step

def KernelOp.outcome (kernel : Kernel) (op : KernelOp) : Kernel := (op.perform 8 kernel).getD kernel

def Kernel.runOps (trace : List KernelOp) : Kernel := trace.foldl KernelOp.outcome Kernel.boot

theorem KernelStep.of_isSome (enabled : op.Enabled kernel) (returns : (op.perform 8 kernel).isSome) :
    KernelStep kernel op (op.outcome kernel) := by
  obtain ⟨after, done⟩ := Option.isSome_iff_exists.mp returns
  exact ⟨enabled, 8, by simp [KernelOp.outcome, done]⟩

/-- A process sleeps on a wait queue, is woken and runs again at a tick. -/
theorem safe_run_unique_membership_sleeper :
    (Kernel.runOps [.processCreate, .processSchedule, .sleepOn 0 0, .processSchedule, .wakeUp 0,
      .schedulerTick]).UniqueMembership := by
  refine safe_run_unique_membership (Run.of_performs ⟨⟨.of_isSome trivial (by decide +kernel), trivial⟩,
    ⟨.of_isSome trivial (by decide +kernel), trivial⟩,
    ⟨.of_isSome ⟨⟨by decide +kernel, by decide +kernel⟩, ?_⟩ (by decide +kernel),
      .inl (by decide +kernel)⟩,
    ⟨.of_isSome trivial (by decide +kernel), trivial⟩,
    ⟨.of_isSome trivial (by decide +kernel), ?_⟩,
    ⟨.of_isSome trivial (by decide +kernel), trivial⟩, trivial⟩)
  · rintro (_ | _ | pid) queue scheduled
    all_goals exact nofun
  · intro entry head
    cases head.symm.trans (show _ = some 0 by decide +kernel)
    exact .inr (by decide +kernel)

def signalledSleeper : List KernelOp :=
  [.processCreate, .processCreate, .processSchedule, .sleepOn 0 0, .processSchedule, .sysKill 1 15,
    .processCreate, .wakeUp 0]

/-- `sys_kill` makes the sleeper ready and leaves its wait-queue entry linked, so
`wake_up` queues the sleeper a second time and cuts off process 3 behind it. -/
theorem signalled_sleeper_cuts_run_queue :
    Run KernelStep Kernel.boot signalledSleeper (Kernel.runOps signalledSleeper) ∧
      ¬ (Kernel.runOps signalledSleeper).UniqueMembership := by
  refine ⟨Run.of_performs ⟨.of_isSome trivial (by decide +kernel),
    .of_isSome trivial (by decide +kernel), .of_isSome trivial (by decide +kernel),
    .of_isSome ⟨⟨by decide +kernel, by decide +kernel⟩, ?_⟩ (by decide +kernel),
    .of_isSome trivial (by decide +kernel), .of_isSome trivial (by decide +kernel),
    .of_isSome trivial (by decide +kernel), .of_isSome trivial (by decide +kernel), trivial⟩, ?_⟩
  · rintro (_ | _ | _ | pid) queue scheduled
    all_goals exact nofun
  · rintro ⟨items, wired, ready⟩
    obtain ⟨place, ⟨runQueue, listed⟩, -⟩ := ready 3 (by decide +kernel)
    have levels : ∀ level, (Kernel.runOps signalledSleeper).mlfqQueues level ≠ none → level = 0 := by
      decide +kernel
    have level : place = .level 0 := by
      cases place with
      | level level =>
        rw [levels level fun empty => ?_]
        have none : items (.level level) = [] := (wired.lists.linked _).unique empty
        simp [none] at listed
      | fair =>
        have none : items .fair = [] := (wired.lists.linked .fair).unique (by decide +kernel)
        simp [none] at listed
      | sleep => exact absurd rfl runQueue
    have queue : items (.level 0) = [0, 1] := (wired.lists.linked (.level 0)).unique
      (by decide +kernel)
    rw [level, queue] at listed
    simp at listed

end Rucix.Sched
