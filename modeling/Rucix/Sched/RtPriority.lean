import Rucix.Sched.RtMutex

namespace Rucix.Sched

open Rucix.Data Function List Kernel

/-! The priority of a process that locks and unlocks rt mutexes on its own. -/

/-- What decides about the priority of a process when it unlocks: its own, the
base priority and the one that `rt_mutex_restore_prio` finds. -/
def Kernel.rtPriorities (kernel : Kernel) (pid : Nat) : Int × Int × Int :=
  let waiters := (kernel.rtView.table.held pid).flatMap kernel.rtView.table.queue
  (kernel.rtView.priority pid, (kernel.procs pid).basePriority,
    waiters.foldl (fun highest waiter => min highest (kernel.rtView.priority waiter))
      (kernel.procs pid).basePriority)

/-- The priority is the base value or what the waiters on the held locks ask for. -/
def Kernel.Settled (kernel : Kernel) (pid : Nat) : Prop :=
  let (priority, base, restored) := kernel.rtPriorities pid
  priority = base ∨ priority = restored

/-- The process itself calls, and nobody else has or wants the lock. -/
def RtLabel.Uncontended (me : Nat) (kernel : Kernel) : RtLabel → Prop
  | .call pid (.rtMutexLock lock) => pid = me ∧ (kernel.rtMutexes lock).waitList = [] ∧
      ((kernel.rtMutexes lock).owner = none ∨ (kernel.rtMutexes lock).owner = some me)
  | .call pid (.rtMutexUnlock lock) => pid = me ∧ (kernel.rtMutexes lock).waitList = []
  | .call _ _ => False
  | .elsewhere => True

theorem flatMap_erase_of_empty {waiters : Nat → List Nat} (empty : waiters lock = []) (held : List Nat) :
    (held.erase lock).flatMap waiters = held.flatMap waiters := by
  induction held with
  | nil => rfl
  | cons first rest ih =>
    by_cases same : first = lock
    · simp [same, empty]
    · simp [same, ih]

variable {kernel after : Kernel}

theorem takeMutex_rtPriorities (empty : (kernel.rtMutexes lock).waitList = []) :
    (kernel.takeMutex lock).rtPriorities kernel.current = kernel.rtPriorities kernel.current := by
  have base : ((kernel.takeMutex lock).procs kernel.current).basePriority =
      (kernel.procs kernel.current).basePriority := by
    simp [takeMutex, setHeldLocks, setMutex]
  have unwaited : kernel.rtView.table.queue lock = [] := empty
  simp only [rtPriorities, takeMutex_rtView, base, LockTable.take, update_self, flatMap_cons, unwaited, nil_append]

theorem unlinkMutex_rtPriorities (empty : (kernel.rtMutexes lock).waitList = []) :
    (kernel.unlinkMutex lock).rtPriorities kernel.current = kernel.rtPriorities kernel.current := by
  have base : ((kernel.unlinkMutex lock).procs kernel.current).basePriority =
      (kernel.procs kernel.current).basePriority := by
    simp [unlinkMutex, setHeldLocks, setMutex]
  simp only [rtPriorities, unlinkMutex_rtView, base, LockTable.release, update_self]
  have unwaited : kernel.rtView.table.queue lock = [] := empty
  rw [flatMap_erase_of_empty unwaited]

theorem releaseMutex_of_ne (empty : (kernel.rtMutexes lock).waitList = [])
    (boosted : (kernel.procs kernel.current).priority ≠ (kernel.procs kernel.current).basePriority) :
    kernel.releaseMutex lock = (kernel.unlinkMutex lock).setPriority kernel.current
      (kernel.rtPriorities kernel.current).2.2 := by
  rw [← unlinkMutex_rtPriorities empty]
  exact if_pos boosted

/-- Restoring a settled priority does nothing. -/
theorem releaseMutex_settled (empty : (kernel.rtMutexes lock).waitList = []) (settled : kernel.Settled kernel.current) :
    kernel.releaseMutex lock = kernel.unlinkMutex lock := by
  by_cases boosted : (kernel.procs kernel.current).priority ≠ (kernel.procs kernel.current).basePriority
  · have restored : (kernel.rtPriorities kernel.current).1 = (kernel.rtPriorities kernel.current).2.2 :=
      settled.resolve_left boosted
    rw [releaseMutex_of_ne empty boosted, ← restored, ← unlinkMutex_rtPriorities empty]
    exact congrArg (fun procs => { kernel.unlinkMutex lock with procs }) (update_eq_self ..)
  · exact if_neg boosted

theorem bestWaiter_eq_none (empty : (kernel.rtMutexes lock).waitList = []) :
    (kernel.releaseMutex lock).bestWaiter lock = none := by
  have released : ((kernel.releaseMutex lock).rtMutexes lock).waitList = [] := by
    simp only [releaseMutex, rtMutexRestorePrio]
    split <;> simp [setMutex, setHeldLocks, setPriority, setProc, empty]
  simp [bestWaiter, released]

/-- An unlock without waiters keeps the priority exactly if it is settled. -/
theorem rtMutexUnlock_priority (owned : (kernel.rtMutexes lock).owner = some kernel.current)
    (empty : (kernel.rtMutexes lock).waitList = []) (done : kernel.rtMutexUnlock fuel lock = some after) :
    (after.procs kernel.current).priority = (kernel.procs kernel.current).priority ↔
      kernel.Settled kernel.current := by
  rw [rtMutexUnlock, if_neg (not_not.mpr owned)] at done
  simp only [bestWaiter_eq_none empty, Option.some.injEq] at done
  subst done
  by_cases boosted : (kernel.procs kernel.current).priority ≠ (kernel.procs kernel.current).basePriority
  · rw [releaseMutex_of_ne empty boosted]
    simp only [setPriority, setProc, update_self]
    exact ⟨fun same => .inr same.symm, fun settled => (settled.resolve_left boosted).symm⟩
  · have same := congrArg Prod.fst (unlinkMutex_rtPriorities empty)
    rw [show kernel.releaseMutex lock = kernel.unlinkMutex lock from if_neg boosted]
    exact iff_of_true same (.inl (not_not.mp boosted))

theorem RtStep.rtPriorities
    (step : RtStep (fun before after => after.rtPriorities me = before.rtPriorities me) before label after)
    (uncontended : label.Uncontended me before) (settled : before.Settled me) :
    after.rtPriorities me = before.rtPriorities me := by
  cases label with
  | elsewhere => exact step
  | call pid op =>
    obtain ⟨rfl, -, fuel, performed⟩ := step
    cases op with
    | rtMutexRetry | rtMutexTrylock => exact uncontended.elim
    | rtMutexLock lock =>
      obtain ⟨rfl, empty, owner⟩ := uncontended
      cases performed
      rcases owner with free | own
      · simp only [rtMutexLock, free]
        exact takeMutex_rtPriorities empty
      · simp [rtMutexLock, own]
    | rtMutexUnlock lock =>
      obtain ⟨rfl, empty⟩ := uncontended
      simp only [RtOp.perform, rtMutexUnlock] at performed
      split at performed
      · cases performed
        rfl
      · rw [bestWaiter_eq_none empty, releaseMutex_settled empty settled] at performed
        cases performed
        exact unlinkMutex_rtPriorities empty

/-- The rest of the kernel may run in between as long as it leaves alone what
the unlock reads.  Where the priority is not settled, the next unlock changes it. -/
theorem uncontended_calls_keep_priority (settled : start.Settled me)
    (run : Run (fun before label after =>
      RtStep (fun before after => after.rtPriorities me = before.rtPriorities me) before label after ∧
        label.Uncontended me before) start trace final) :
    (final.procs me).priority = (start.procs me).priority ∧
    ∀ (kernel after : Kernel) lock fuel, (kernel.rtMutexes lock).owner = some kernel.current →
      (kernel.rtMutexes lock).waitList = [] → kernel.rtMutexUnlock fuel lock = some after →
      ((after.procs kernel.current).priority = (kernel.procs kernel.current).priority ↔
        kernel.Settled kernel.current) := by
  have same : final.rtPriorities me = start.rtPriorities me := by
    induction run with
    | nil => rfl
    | snoc _ last same =>
      refine (last.1.rtPriorities last.2 ?_).trans same
      rwa [Settled, same]
  exact ⟨congrArg Prod.fst same, fun _ _ _ _ => rtMutexUnlock_priority⟩

theorem uncontended_calls_keep_first_priority : ∃ after,
    (Kernel.boot.rtMutexLock 7).rtMutexUnlock 0 7 = some after ∧
      (after.procs 0).priority = (Kernel.boot.procs 0).priority := by
  refine ⟨_, rfl, (uncontended_calls_keep_priority (.inl rfl)
    (@Run.snoc _ _ _ _ _ (Kernel.boot.rtMutexLock 7) _ (.call 0 (.rtMutexUnlock 7))
      (@Run.snoc _ _ _ _ _ _ _ (.call 0 (.rtMutexLock 7)) .nil ?_) ?_)).1⟩
  · exact ⟨⟨rfl, rfl, 0, rfl⟩, rfl, rfl, .inl rfl⟩
  · exact ⟨⟨rfl, rfl, 0, rfl⟩, rfl, rfl⟩

/-- Two ticks use up the time slice, so that the first process is moved to priority
1; a lock and an unlock take it back to priority 0. -/
theorem demoted_process_loses_demotion :
    let after (ops : List KernelOp) := (execute (KernelOp.perform 3) Kernel.boot ops).map
      fun kernel => (kernel.current, (kernel.procs 0).priority)
    after [.schedulerTick, .schedulerTick] = some (0, 1) ∧
      after [.schedulerTick, .schedulerTick, .rtMutexLock 7, .rtMutexUnlock 7] = some (0, 0) := by
  decide +kernel

end Rucix.Sched
