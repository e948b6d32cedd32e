import Rucix.Data.LockTable
import Rucix.Sched.SafeRuns

namespace Rucix.Sched

open Rucix.Data Function List Kernel

/-! The parts of `rt_mutex_lock`, `rt_mutex_trylock` and `rt_mutex_unlock` under
`wait_lock`, by any processes in any order.  Between two of them the rest of the
kernel may run.
-/

/-- `rtMutexRetry` is what `rt_mutex_lock` does after `process_schedule`; an
attempt is labelled with the value it returned. -/
inductive RtOp where
  | rtMutexLock (lock : Nat)
  | rtMutexRetry (lock : Nat)
  | rtMutexTrylock (lock : Nat) (returned : Int)
  | rtMutexUnlock (lock : Nat)
deriving DecidableEq, Repr

def RtOp.perform (fuel : Nat) (kernel : Kernel) : RtOp → Option Kernel
  | .rtMutexLock lock => some (kernel.rtMutexLock lock)
  | .rtMutexRetry lock => some (kernel.rtMutexRetry lock)
  | .rtMutexTrylock lock returned =>
    if (kernel.rtMutexTrylock lock).1 = returned then some (kernel.rtMutexTrylock lock).2 else none
  | .rtMutexUnlock lock => kernel.rtMutexUnlock fuel lock

def RtOp.Enabled (kernel : Kernel) : RtOp → Prop
  | .rtMutexRetry lock => kernel.frames kernel.current = some (.rtMutexLock lock true)
  | _ => kernel.frames kernel.current = none

/-- A part of one of the three functions, or anything else. -/
inductive RtLabel where
  | call (pid : Nat) (op : RtOp)
  | elsewhere
deriving DecidableEq, Repr

def RtStep (environment : Kernel → Kernel → Prop) (before : Kernel) : RtLabel → Kernel → Prop
  | .call pid op, after =>
    before.current = pid ∧ op.Enabled before ∧ ∃ fuel, op.perform fuel before = some after
  | .elsewhere, after => environment before after

namespace Kernel

/-- The lock in whose slow path a process is. -/
def slowPath (kernel : Kernel) (pid : Nat) : Option Nat :=
  match kernel.frames pid with
  | some (.rtMutexLock lock _) => some lock
  | _ => none

def lockTable (kernel : Kernel) : LockTable Nat Nat where
  owner lock := (kernel.rtMutexes lock).owner
  queue lock := (kernel.rtMutexes lock).waitList
  held pid := (kernel.procs pid).heldLocks
  waiting := kernel.slowPath

/-- After `rt_mutex_init` of every lock, with no lock held or waited for. -/
structure Fresh (kernel : Kernel) : Prop where
  rtMutexes : ∀ lock, kernel.rtMutexes lock = { owner := none, waitList := [] }
  heldLocks : ∀ pid, (kernel.procs pid).heldLocks = []
  slowPath : ∀ pid, kernel.slowPath pid = none

/-- The rest of the kernel leaves the locks alone and does not block a process
in the loop of `rt_mutex_lock`. -/
structure Undisturbed (before after : Kernel) : Prop where
  lockTable : after.lockTable = before.lockTable
  awake : ∀ pid, before.slowPath pid ≠ none →
    (before.procs pid).state ≠ .blocked → (after.procs pid).state ≠ .blocked

/-- It changes no priority either. -/
structure Unprioritized (before after : Kernel) : Prop extends Undisturbed before after where
  priority : ∀ pid, (after.procs pid).priority = (before.procs pid).priority

end Kernel

@[ext]
structure RtView where
  table : LockTable Nat Nat
  priority : Nat → Int
  state : Nat → ProcessState

namespace Kernel

variable {kernel after : Kernel} {pid fuel lock : Nat}

def rtView (kernel : Kernel) : RtView where
  table := kernel.lockTable
  priority pid := (kernel.procs pid).priority
  state pid := (kernel.procs pid).state

variable (kernel)

theorem rtView_setProc : (kernel.setProc pid proc).rtView =
      { table := { kernel.rtView.table with
          held := update kernel.rtView.table.held pid proc.heldLocks }
        priority := update kernel.rtView.priority pid proc.priority
        state := update kernel.rtView.state pid proc.state } := by
  refine RtView.ext (LockTable.ext rfl rfl ?_ rfl) ?_ ?_ <;> funext other <;>
    by_cases same : other = pid <;> simp [rtView, lockTable, same]

theorem rtView_setState : (kernel.setState pid state).rtView =
      { kernel.rtView with state := update kernel.rtView.state pid state } := by
  rw [setState, rtView_setProc]
  exact RtView.ext (LockTable.ext rfl rfl (update_eq_self ..) rfl)
    (update_eq_self ..) rfl

theorem rtView_setPriority (priority : Int) :
    (kernel.setPriority pid priority).rtView =
      { kernel.rtView with priority := update kernel.rtView.priority pid priority } := by
  rw [setPriority, rtView_setProc]
  exact RtView.ext (LockTable.ext rfl rfl (update_eq_self ..) rfl) rfl
    (update_eq_self ..)

theorem rtView_setHeldLocks : (kernel.setHeldLocks pid heldLocks).rtView =
      { kernel.rtView with
        table := { kernel.rtView.table with
          held := update kernel.rtView.table.held pid heldLocks } } := by
  rw [setHeldLocks, rtView_setProc]
  exact RtView.ext rfl (update_eq_self ..) (update_eq_self ..)

theorem rtView_setNextReady : (kernel.setNextReady pid link).rtView = kernel.rtView := by
  rw [setNextReady, rtView_setProc]
  exact RtView.ext (LockTable.ext rfl rfl (update_eq_self ..) rfl)
    (update_eq_self ..) (update_eq_self ..)

theorem rtView_setMutex : (kernel.setMutex lock mutex).rtView =
      { kernel.rtView with
        table := { kernel.rtView.table with
          owner := update kernel.rtView.table.owner lock mutex.owner
          queue := update kernel.rtView.table.queue lock mutex.waitList } } := by
  refine RtView.ext (LockTable.ext ?_ ?_ rfl rfl) rfl rfl <;> funext other <;>
    by_cases same : other = lock <;> simp [rtView, lockTable, setMutex, same]

theorem rtView_setFrame : (kernel.setFrame pid frame).rtView =
      { kernel.rtView with
        table := { kernel.rtView.table with
          waiting := update kernel.rtView.table.waiting pid
            (match frame with | some (.rtMutexLock lock _) => some lock | _ => none) } } := by
  refine RtView.ext (LockTable.ext rfl rfl rfl ?_) rfl rfl
  funext other
  by_cases same : other = pid <;> simp [rtView, lockTable, slowPath, setFrame, same]

theorem takeMutex_rtView : (kernel.takeMutex lock).rtView =
      { kernel.rtView with table := kernel.rtView.table.take kernel.current lock } := by
  rw [takeMutex, rtView_setHeldLocks, rtView_setMutex]
  exact RtView.ext (LockTable.ext rfl (update_eq_self ..) rfl rfl) rfl rfl

theorem leaveMutexQueue_rtView : (kernel.leaveMutexQueue lock).rtView =
      { kernel.rtView with table := kernel.rtView.table.leave kernel.current lock } := by
  rw [leaveMutexQueue, rtView_setFrame, rtView_setMutex]
  exact RtView.ext (LockTable.ext (update_eq_self ..) rfl rfl rfl) rfl rfl

theorem blockOnMutex_rtView : (kernel.blockOnMutex lock).rtView =
      { kernel.rtView with
        table := { kernel.rtView.table with
          waiting := update kernel.rtView.table.waiting kernel.current (some lock) }
        state := update kernel.rtView.state kernel.current .blocked } := by
  rw [blockOnMutex, rtView_setFrame, rtView_setState]

theorem joinMutexQueue_rtView : (kernel.setMutex lock { kernel.rtMutexes lock with
      waitList := (kernel.rtMutexes lock).waitList ++ [pid] }).rtView =
      { kernel.rtView with
        table := { kernel.rtView.table with
          queue := update kernel.rtView.table.queue lock
            (kernel.rtView.table.queue lock ++ [pid]) } } := by
  rw [rtView_setMutex]
  exact RtView.ext (LockTable.ext (update_eq_self ..) rfl rfl rfl) rfl rfl

/-- The loop only ever writes to the owner, and gets no further than its first pass. -/
theorem rtMutexAdjustPrioChain_rtView :
    (kernel.rtMutexAdjustPrioChain owner priority (depth + 1)).rtView =
      { kernel.rtView with
        priority := update kernel.rtView.priority owner
          (min (kernel.rtView.priority owner) priority) } := by
  simp only [rtMutexAdjustPrioChain]
  by_cases urgent : (kernel.procs owner).priority ≤ priority
  · have same : min (kernel.rtView.priority owner) priority = kernel.rtView.priority owner := min_eq_left urgent
    rw [if_pos urgent, same, update_eq_self]
  · have raised : min (kernel.rtView.priority owner) priority = priority := min_eq_right (by
      simp only [rtView]
      omega)
    rw [if_neg urgent, raised, ← rtView_setPriority]
    split
    · rfl
    · cases depth with
      | zero => rfl
      | succ depth => rw [rtMutexAdjustPrioChain, if_pos (by simp [setPriority])]

/-- The comparison before the loop is that of its first pass. -/
theorem boostOwner_eq :
    (if priority < (kernel.procs owner).priority then kernel.rtMutexAdjustPrioChain owner priority 10
      else kernel) = kernel.rtMutexAdjustPrioChain owner priority 10 := by
  split
  · rfl
  · rename_i urgent
    rw [rtMutexAdjustPrioChain, if_pos (not_lt.mp urgent)]

theorem enqueueTaskMlfq_rtView : (kernel.enqueueTaskMlfq pid).rtView =
      { kernel.rtView with state := update kernel.rtView.state pid .ready } := by
  have marked : (kernel.markReady pid).rtView =
      { kernel.rtView with state := update kernel.rtView.state pid .ready } := by
    rw [markReady, rtView_setNextReady, rtView_setState]
  rw [← marked]
  simp only [enqueueTaskMlfq]
  split
  · rfl
  · rfl
  · exact rtView_setNextReady (kernel.markReady pid)

variable {kernel}

theorem enqueueTaskFair_rtView (done : kernel.enqueueTaskFair fuel pid = some after) :
    after.rtView = { kernel.rtView with state := update kernel.rtView.state pid .ready } := by
  rw [← rtView_setState]
  obtain ⟨link, -, done⟩ := Option.bind_eq_some_iff.mp done
  cases link with
  | none =>
    cases done
    exact rtView_setNextReady (kernel.setState pid .ready)
  | some before =>
    cases done
    rw [rtView_setNextReady, rtView_setNextReady]

theorem enqueueProcess_rtView (done : kernel.enqueueProcess fuel pid = some after) :
    after.rtView = kernel.rtView := by
  simp only [enqueueProcess] at done
  split at done
  · cases done
    rfl
  · rename_i ready
    have same : update kernel.rtView.state pid .ready = kernel.rtView.state := by
      rw [← not_not.mp ready]
      exact update_eq_self ..
    split at done
    · cases done
      rw [enqueueTaskMlfq_rtView, same]
    · rw [enqueueTaskFair_rtView done, same]

theorem makeReady_rtView (done : kernel.makeReady fuel pid = some after) :
    after.rtView = { kernel.rtView with state := update kernel.rtView.state pid .ready } :=
  (enqueueProcess_rtView done).trans (rtView_setState ..)

/-- The fold of `rt_mutex_restore_prio`. -/
theorem foldl_min_le (priority : Nat → Int) (waiters : List Nat) (highest : Int) :
    waiters.foldl (fun highest waiter => min highest (priority waiter)) highest ≤ highest ∧
      ∀ waiter ∈ waiters,
        waiters.foldl (fun highest waiter => min highest (priority waiter)) highest ≤ priority waiter := by
  induction waiters generalizing highest with
  | nil => simp
  | cons first rest ih =>
    obtain ⟨below, least⟩ := ih (min highest (priority first))
    refine ⟨below.trans (min_le_left ..), fun waiter member => ?_⟩
    rcases mem_cons.mp member with rfl | member
    · exact below.trans (min_le_right ..)
    · exact least waiter member

theorem rtMutexRestorePrio_rtView (kernel : Kernel) : ∃ urgency,
      (∀ key ∈ kernel.rtView.table.held owner, ∀ waiter ∈ kernel.rtView.table.queue key,
        urgency ≤ kernel.rtView.priority waiter) ∧
      (kernel.rtMutexRestorePrio owner).rtView =
        { kernel.rtView with priority := update kernel.rtView.priority owner urgency } := by
  refine ⟨_, fun key held waiter queued => ?_, rtView_setPriority kernel _⟩
  exact (foldl_min_le kernel.rtView.priority _ _).2 waiter (mem_flatMap.mpr ⟨key, held, queued⟩)

/-- `rt_mutex_unlock` by the owner before the priority is restored. -/
def unlinkMutex (kernel : Kernel) (lock : Nat) : Kernel :=
  let unlinked := kernel.setHeldLocks kernel.current ((kernel.procs kernel.current).heldLocks.erase lock)
  unlinked.setMutex lock { unlinked.rtMutexes lock with owner := none }

theorem unlinkMutex_rtView (kernel : Kernel) : (kernel.unlinkMutex lock).rtView =
    { kernel.rtView with table := kernel.rtView.table.release kernel.current lock } := by
  rw [unlinkMutex, rtView_setMutex, rtView_setHeldLocks]
  exact RtView.ext (LockTable.ext rfl (update_eq_self ..) rfl rfl) rfl rfl

theorem releaseMutex_rtView (kernel : Kernel) : ∃ urgency,
      (urgency = kernel.rtView.priority kernel.current ∨
        ∀ key ∈ (kernel.rtView.table.release kernel.current lock).held kernel.current,
          ∀ waiter ∈ kernel.rtView.table.queue key, urgency ≤ kernel.rtView.priority waiter) ∧
      (kernel.releaseMutex lock).rtView =
        { kernel.rtView with
          table := kernel.rtView.table.release kernel.current lock
          priority := update kernel.rtView.priority kernel.current urgency } := by
  by_cases boosted : (kernel.procs kernel.current).priority ≠ (kernel.procs kernel.current).basePriority
  · obtain ⟨urgency, least, restored⟩ := (kernel.unlinkMutex lock).rtMutexRestorePrio_rtView
    have chosen : kernel.releaseMutex lock = (kernel.unlinkMutex lock).rtMutexRestorePrio kernel.current :=
      if_pos boosted
    rw [unlinkMutex_rtView] at least restored
    exact ⟨urgency, .inr least, by rw [chosen, restored]⟩
  · have kept : kernel.releaseMutex lock = kernel.unlinkMutex lock := if_neg boosted
    exact ⟨kernel.rtView.priority kernel.current, .inl rfl, by rw [kept, unlinkMutex_rtView, update_eq_self]⟩

end Kernel

/-- The earliest of the most urgent waiters. -/
def IsBest (priority : Nat → Int) (waiters : List Nat) (best : Nat) : Prop :=
  ∃ early late, waiters = early ++ best :: late ∧
    (∀ waiter ∈ early, priority best < priority waiter) ∧
    ∀ waiter ∈ late, priority best ≤ priority waiter

/-- The fold of `rt_mutex_unlock`, from the priority and the waiter found so far. -/
def bestOf (priority : Nat → Int) (waiters : List Nat) (found : Int × Option Nat) : Int × Option Nat :=
  waiters.foldl
    (fun best waiter => if priority waiter < best.1 then (priority waiter, some waiter) else best) found

theorem bestOf_cases (priority : Nat → Int) (waiters : List Nat) (found : Int × Option Nat) :
    (bestOf priority waiters found = found ∧ ∀ waiter ∈ waiters, found.1 ≤ priority waiter) ∨
      ∃ best, bestOf priority waiters found = (priority best, some best) ∧
        priority best < found.1 ∧ IsBest priority waiters best := by
  induction waiters generalizing found with
  | nil => exact .inl ⟨rfl, by simp⟩
  | cons first rest ih =>
    let next := if priority first < found.1 then (priority first, some first) else found
    have below : next.1 ≤ found.1 ∧ next.1 ≤ priority first := by
      simp only [next]
      split <;> simp <;> omega
    have turn : bestOf priority (first :: rest) found = bestOf priority rest next := rfl
    rw [turn]
    rcases ih next with ⟨kept, least⟩ | ⟨best, chosen, less, early, late, split, before, behind⟩
    · by_cases better : priority first < found.1
      · have isNext : next = (priority first, some first) := if_pos better
        rw [isNext] at kept least ⊢
        exact .inr ⟨first, kept, better, [], rest, rfl, by simp, least⟩
      · have isNext : next = found := if_neg better
        rw [isNext] at kept least ⊢
        exact .inl ⟨kept, forall_mem_cons.mpr ⟨not_lt.mp better, least⟩⟩
    · refine .inr ⟨best, chosen, less.trans_le below.1, first :: early, late, by simp [split], ?_, behind⟩
      exact forall_mem_cons.mpr ⟨less.trans_le below.2, before⟩

/-- With priorities below 999 a waiter is found if there is one. -/
theorem exists_isBest (urgent : ∀ waiter ∈ waiters, priority waiter < 999) (waited : waiters ≠ []) :
    ∃ best, (bestOf priority waiters (999, none)).2 = some best ∧ IsBest priority waiters best := by
  rcases bestOf_cases priority waiters (999, none) with ⟨-, least⟩ | ⟨best, chosen, -, isBest⟩
  · obtain ⟨first, member⟩ := exists_mem_of_ne_nil waiters waited
    have below := urgent first member
    have above : 999 ≤ priority first := least first member
    omega
  · exact ⟨best, by rw [chosen], isBest⟩

/-- The effect of each part on the view: `own`, `fail` and `refuse` change
nothing, `join` and `again` block the caller. -/
inductive RtSection (view : RtView) (pid : Nat) : RtOp → RtView → Prop where
  | take {op : RtOp} {lock : Nat} (takes : op = .rtMutexLock lock ∨ op = .rtMutexTrylock lock 1)
      (free : view.table.owner lock = none) :
      RtSection view pid op { view with table := view.table.take pid lock }
  | own {lock : Nat} (owned : view.table.owner lock = some pid) :
      RtSection view pid (.rtMutexLock lock) view
  | join {lock owner : Nat} (owned : view.table.owner lock = some owner) (different : owner ≠ pid) :
      RtSection view pid (.rtMutexLock lock)
        { table := view.table.enqueue pid lock
          priority := update view.priority owner (min (view.priority owner) (view.priority pid))
          state := update view.state pid .blocked }
  | retake {lock : Nat} (free : view.table.owner lock = none) :
      RtSection view pid (.rtMutexRetry lock)
        { view with table := (view.table.take pid lock).leave pid lock }
  | leave {lock : Nat} (owned : view.table.owner lock = some pid) :
      RtSection view pid (.rtMutexRetry lock) { view with table := view.table.leave pid lock }
  | again {lock owner : Nat} (owned : view.table.owner lock = some owner) (different : owner ≠ pid) :
      RtSection view pid (.rtMutexRetry lock)
        { view with state := update view.state pid .blocked }
  | fail {lock owner : Nat} (owned : view.table.owner lock = some owner) :
      RtSection view pid (.rtMutexTrylock lock 0) view
  | refuse {lock : Nat} (other : view.table.owner lock ≠ some pid) :
      RtSection view pid (.rtMutexUnlock lock) view
  | release {lock : Nat} {urgency : Int} {chosen : Option Nat}
      (owned : view.table.owner lock = some pid)
      (restored : urgency = view.priority pid ∨
        ∀ key ∈ (view.table.release pid lock).held pid, ∀ waiter ∈ view.table.queue key,
          urgency ≤ view.priority waiter)
      (best : (bestOf (update view.priority pid urgency) (view.table.queue lock) (999, none)).2 =
        chosen) :
      RtSection view pid (.rtMutexUnlock lock)
        { table := view.table.release pid lock
          priority := update view.priority pid urgency
          state := chosen.elim view.state fun waiter => update view.state waiter .ready }

def RtOp.place : RtOp → Option Nat
  | .rtMutexRetry lock => some lock
  | _ => none

theorem RtOp.Enabled.slowPath {kernel : Kernel} {op : RtOp} (enabled : op.Enabled kernel) :
    kernel.slowPath kernel.current = op.place := by
  cases op with
  | rtMutexRetry lock =>
    have frame : kernel.frames kernel.current = some (.rtMutexLock lock true) := enabled
    simp [Kernel.slowPath, frame, RtOp.place]
  | rtMutexLock lock | rtMutexTrylock lock returned | rtMutexUnlock lock =>
    have frame : kernel.frames kernel.current = none := enabled
    simp [Kernel.slowPath, frame, RtOp.place]

section Sections

variable {kernel after : Kernel} {fuel lock : Nat}

theorem rtMutexLock_section (kernel : Kernel) (lock : Nat) :
    RtSection kernel.rtView kernel.current (.rtMutexLock lock) (kernel.rtMutexLock lock).rtView := by
  simp only [rtMutexLock]
  split
  · rename_i free
    rw [takeMutex_rtView]
    exact .take (.inl rfl) free
  · rename_i owner owned
    split
    · rename_i own
      exact .own (own ▸ owned)
    · rename_i own
      rw [blockOnMutex_rtView, boostOwner_eq, (Kernel.SameQueues.rtMutexAdjustPrioChain ..).current,
        rtMutexAdjustPrioChain_rtView, joinMutexQueue_rtView]
      exact .join owned own

theorem rtMutexRetry_section (waiting : kernel.slowPath kernel.current = some lock) :
    RtSection kernel.rtView kernel.current (.rtMutexRetry lock) (kernel.rtMutexRetry lock).rtView := by
  simp only [rtMutexRetry]
  split
  · rename_i free
    rw [leaveMutexQueue_rtView, takeMutex_rtView]
    exact .retake free
  · rename_i owner owned
    split
    · rename_i own
      rw [leaveMutexQueue_rtView]
      exact .leave (own ▸ owned)
    · rename_i own
      have still : update kernel.rtView.table.waiting kernel.current (some lock) =
          kernel.rtView.table.waiting := by
        rw [← waiting]
        exact update_eq_self ..
      rw [blockOnMutex_rtView, still]
      exact .again owned own

theorem rtMutexTrylock_section :
    RtSection kernel.rtView kernel.current (.rtMutexTrylock lock (kernel.rtMutexTrylock lock).1)
      (kernel.rtMutexTrylock lock).2.rtView := by
  simp only [rtMutexTrylock]
  split
  · rename_i free
    rw [takeMutex_rtView]
    exact .take (.inr rfl) free
  · rename_i owner owned
    exact .fail owned

theorem rtMutexUnlock_section (done : kernel.rtMutexUnlock fuel lock = some after) :
    RtSection kernel.rtView kernel.current (.rtMutexUnlock lock) after.rtView := by
  simp only [rtMutexUnlock] at done
  split at done
  · rename_i other
    cases done
    exact .refuse other
  · rename_i owned
    obtain ⟨urgency, restored, released⟩ := kernel.releaseMutex_rtView
    have best : (bestOf (kernel.releaseMutex lock).rtView.priority
        ((kernel.releaseMutex lock).rtView.table.queue lock) (999, none)).2 =
        (kernel.releaseMutex lock).bestWaiter lock := rfl
    rw [released] at best
    have unlocked := RtSection.release (not_not.mp owned) restored best
    split at done
    · rename_i nobody
      cases done
      rw [nobody] at unlocked
      rw [released]
      exact unlocked
    · rename_i waiter chosen
      rw [chosen] at unlocked
      rw [makeReady_rtView done, released]
      exact unlocked

end Sections

theorem RtStep.section_of_call {environment : Kernel → Kernel → Prop} {before after : Kernel} {pid : Nat} {op : RtOp}
    (step : RtStep environment before (.call pid op) after) :
    RtSection before.rtView pid op after.rtView ∧ before.lockTable.waiting pid = op.place := by
  obtain ⟨rfl, enabled, fuel, done⟩ := step
  refine ⟨?_, enabled.slowPath⟩
  cases op with
  | rtMutexLock lock =>
    cases done
    exact rtMutexLock_section before lock
  | rtMutexRetry lock =>
    cases done
    exact rtMutexRetry_section enabled.slowPath
  | rtMutexTrylock lock returned =>
    simp only [RtOp.perform] at done
    split at done
    · rename_i same
      cases done
      subst same
      exact rtMutexTrylock_section
    · cases done
  | rtMutexUnlock lock => exact rtMutexUnlock_section done

namespace Kernel.Undisturbed

variable {kernel after : Kernel} {pid fuel : Nat}

theorem trans (first : Undisturbed kernel middle) (second : Undisturbed middle after) : Undisturbed kernel after := by
  refine ⟨second.lockTable.trans first.lockTable, fun pid inside awake => ?_⟩
  have still : middle.slowPath pid = kernel.slowPath pid :=
    congrFun (congrArg LockTable.waiting first.lockTable) pid
  exact second.awake pid (still ▸ inside) (first.awake pid inside awake)

theorem of_rtView_eq (same : after.rtView = kernel.rtView) : Undisturbed kernel after := by
  refine ⟨congrArg RtView.table same, fun pid _ awake => ?_⟩
  have state : (after.procs pid).state = (kernel.procs pid).state := congrFun (congrArg RtView.state same) pid
  rwa [state]

theorem setState (runnable : state ≠ .blocked) : Undisturbed kernel (kernel.setState pid state) := by
  refine ⟨congrArg RtView.table (rtView_setState kernel), fun other _ awake => ?_⟩
  by_cases same : other = pid
  · simpa [Kernel.setState, same] using runnable
  · simpa [Kernel.setState, same] using awake

theorem demote : Undisturbed kernel (kernel.demote pid) := by
  simp only [Kernel.demote]
  split
  · refine ⟨?_, fun other _ awake => ?_⟩
    · refine (congrArg RtView.table (rtView_setProc kernel)).trans ?_
      exact LockTable.ext rfl rfl (update_eq_self ..) rfl
    · by_cases same : other = pid
      · subst same
        simpa using awake
      · simpa [same] using awake
  · exact of_rtView_eq rfl

theorem markScheduled : Undisturbed kernel kernel.markScheduled := by
  refine of_rtView_eq (RtView.ext (LockTable.ext rfl rfl rfl ?_) rfl rfl)
  funext pid
  by_cases same : pid = kernel.current
  · subst same
    simp only [rtView, Kernel.lockTable, slowPath, Kernel.markScheduled, update_self]
    cases frame : kernel.frames kernel.current with
    | none => rfl
    | some place => cases place <;> rfl
  · simp [rtView, Kernel.lockTable, slowPath, Kernel.markScheduled, same]

theorem pickNextTask {next : Nat} (picked : kernel.pickNextTask = some (next, after)) : Undisturbed kernel after := by
  obtain ⟨queues, tails, fair, rfl⟩ := pickNextTask_eq picked
  exact of_rtView_eq (rtView_setNextReady kernel)

theorem requeueCurrent (done : kernel.requeueCurrent fuel = some after) : Undisturbed kernel after := by
  simp only [Kernel.requeueCurrent] at done
  split at done
  · have queued := of_rtView_eq (enqueueProcess_rtView done)
    exact ((setState (by decide)).trans (demote ..)).trans queued
  · cases done
    exact of_rtView_eq rfl

theorem switchToNext : Undisturbed kernel kernel.switchToNext := by
  simp only [Kernel.switchToNext]
  split
  · rename_i next chosen picked
    have running : Undisturbed chosen (chosen.setState next .running) := setState (by decide)
    exact ((pickNextTask picked).trans running).trans (of_rtView_eq rfl)
  · split
    · exact setState (by decide)
    · exact of_rtView_eq rfl

/-- `process_schedule`, which `rt_mutex_lock` calls between its parts. -/
theorem processSchedule (done : kernel.markScheduled.processSchedule fuel = some after) :
    Undisturbed kernel after := by
  obtain ⟨requeued, first, rfl⟩ := Option.map_eq_some_iff.mp done
  exact ((markScheduled).trans (requeueCurrent first)).trans (switchToNext)

end Kernel.Undisturbed

end Rucix.Sched
