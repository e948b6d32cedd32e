import Rucix.Sched.Fields
import Rucix.Sched.Sync

namespace Rucix.Sched

open Rucix.Data Function List

/-! The lists that share the `next_ready` link. -/

inductive Place where
  | level (level : Fin mlfqLevels)
  | fair
  | sleep
deriving DecidableEq

namespace Kernel

variable {kernel : Kernel} {pid : Nat} {items : Place → List Nat}

def nextReady (kernel : Kernel) (pid : Nat) : Option Nat := (kernel.procs pid).nextReady

def listHead (kernel : Kernel) : Place → Option Nat
  | .level level => kernel.mlfqQueues level
  | .fair => kernel.cfsQueue
  | .sleep => kernel.sleepQueue

/-- The lists are separate, and each tail pointer is the last process of its
list. -/
structure Wired (kernel : Kernel) (items : Place → List Nat) : Prop where
  lists : Lists kernel.nextReady kernel.listHead items
  tails : ∀ level, kernel.mlfqTails level = (items (.level level)).getLast?

def Detached (kernel : Kernel) (pid : Nat) : Prop :=
  (kernel.procs pid).state = .running ∨ (kernel.procs pid).state = .blocked

/-- Run-queue membership follows the state of the processes.  The process in
`held`, if any, has been taken off its list or is about to be put on one. -/
structure Queued (kernel : Kernel) (items : Place → List Nat) (held : Option Nat) : Prop
    extends Wired kernel items where
  ready : ∀ pid, (kernel.procs pid).state = .ready →
    held = some pid ∨ ∃ place, place ≠ .sleep ∧ pid ∈ items place
  detached : ∀ pid, kernel.Detached pid → ∀ place, pid ∉ items place
  held : ∀ pid, held = some pid → pid < kernel.nextPid ∧ ∀ place, pid ∉ items place
  unborn : ∀ pid, kernel.nextPid ≤ pid →
    (kernel.procs pid).state = .terminated ∧ ∀ place, pid ∉ items place
  current_lt : kernel.current < kernel.nextPid
  classes : ∀ pid, (kernel.procs pid).schedClass = .mlfq

/-- Only the list of the sleepers is known to be the same. -/
abbrev Reordered (kernel : Kernel) (items : Place → List Nat) (held : Option Nat) : Prop :=
  ∃ newItems, kernel.Queued newItems held ∧ newItems .sleep = items .sleep

theorem setProc_nextReady (proc : Process) :
    (kernel.setProc pid proc).nextReady = update kernel.nextReady pid proc.nextReady :=
  comp_update Process.nextReady kernel.procs pid proc

theorem setState_nextReady (state : ProcessState) :
    (kernel.setState pid state).nextReady = kernel.nextReady :=
  funext (setProc_view rfl)

theorem setNextReady_nextReady (pid : Nat) :
    (kernel.setNextReady pid link).nextReady = update kernel.nextReady pid link :=
  setProc_nextReady ..

theorem setLevel_listHead (kernel : Kernel) (level : Fin mlfqLevels) (head tail : Option Nat) :
    (kernel.setLevel level head tail).listHead =
      update kernel.listHead (.level level) head := by
  funext place
  cases place with
  | level other =>
    by_cases same : other = level
    · subst same
      simp [listHead, setLevel]
    · simp [listHead, setLevel, same]
  | fair | sleep => simp [listHead, setLevel]

theorem Wired.setLevel {other : Kernel} {level : Fin mlfqLevels} {head tail : Option Nat} {newItems : List Nat}
    (wired : kernel.Wired items) (lists : Lists other.nextReady (update kernel.listHead (.level level) head)
      (update items (.level level) newItems)) (sameHeads : other.listHead = kernel.listHead)
    (sameTails : other.mlfqTails = kernel.mlfqTails) (last : tail = newItems.getLast?) :
    (other.setLevel level head tail).Wired (update items (.level level) newItems) := by
  refine ⟨?_, fun target => ?_⟩
  · rw [setLevel_listHead, sameHeads]
    exact lists
  · simp only [Kernel.setLevel, sameTails]
    by_cases same : target = level
    · subst same
      simp [last]
    · simpa [same] using wired.tails target

/-- The first step of `enqueue_task_mlfq`. -/
def markReady (kernel : Kernel) (pid : Nat) : Kernel := (kernel.setState pid .ready).setNextReady pid none

theorem markReady_nextReady (pid : Nat) :
    (kernel.markReady pid).nextReady = update kernel.nextReady pid none := by
  rw [markReady, setNextReady_nextReady, setState_nextReady]

theorem enqueueTaskMlfq_empty (target : mlfqLevel (kernel.procs pid).priority = level)
    (empty : kernel.mlfqQueues level = none) :
    kernel.enqueueTaskMlfq pid = (kernel.markReady pid).setLevel level (some pid) (some pid) := by
  have head : (kernel.markReady pid).mlfqQueues level = none := empty
  rw [markReady] at head ⊢
  simp only [Kernel.enqueueTaskMlfq, target, head]

theorem enqueueTaskMlfq_behind (target : mlfqLevel (kernel.procs pid).priority = level)
    (used : kernel.mlfqQueues level ≠ none) (tail : kernel.mlfqTails level = some last) :
    kernel.enqueueTaskMlfq pid = ((kernel.markReady pid).setNextReady last (some pid)).setLevel level
      (kernel.mlfqQueues level) (some pid) := by
  obtain ⟨first, head⟩ := Option.ne_none_iff_exists'.mp used
  have sameHead : (kernel.markReady pid).mlfqQueues level = some first := head
  have sameTail : (kernel.markReady pid).mlfqTails level = some last := tail
  rw [markReady] at sameHead sameTail ⊢
  simp only [Kernel.enqueueTaskMlfq, target, sameHead, sameTail, head]

theorem Wired.enqueueTaskMlfq (wired : kernel.Wired items) (unlinked : ∀ place, pid ∉ items place) :
    (kernel.enqueueTaskMlfq pid).Wired
      (update items (.level (mlfqLevel (kernel.procs pid).priority))
        (items (.level (mlfqLevel (kernel.procs pid).priority)) ++ [pid])) := by
  obtain ⟨level, target⟩ : ∃ level, mlfqLevel (kernel.procs pid).priority = level := ⟨_, rfl⟩
  rw [target]
  have head : kernel.mlfqQueues level = (items (.level level)).head? := wired.lists.head_eq (.level level)
  cases tail : (items (.level level)).getLast? with
  | none =>
    have empty := getLast?_eq_none_iff.mp tail
    rw [empty] at head
    rw [enqueueTaskMlfq_empty target head, empty]
    refine wired.setLevel ?_ rfl rfl rfl
    rw [markReady_nextReady]
    exact wired.lists.single unlinked
  | some last =>
    obtain ⟨before, shape⟩ := getLast?_eq_some_iff.mp tail
    rw [enqueueTaskMlfq_behind target (by simp [head, shape]) ((wired.tails level).trans tail)]
    refine wired.setLevel ?_ rfl rfl (by simp)
    have sameHead : update kernel.listHead (.level level) (kernel.mlfqQueues level) = kernel.listHead :=
      update_eq_self ..
    rw [setNextReady_nextReady, markReady_nextReady, sameHead]
    exact wired.lists.pushBack shape unlinked

structure SameTasks (before after : Kernel) : Prop where
  state : ∀ pid, (after.procs pid).state = (before.procs pid).state
  schedClass : ∀ pid, (after.procs pid).schedClass = (before.procs pid).schedClass
  nextPid : after.nextPid = before.nextPid
  current : after.current = before.current

structure SameQueues (before after : Kernel) : Prop extends SameTasks before after where
  nextReady : after.nextReady = before.nextReady
  listHead : after.listHead = before.listHead
  mlfqTails : after.mlfqTails = before.mlfqTails

variable {after : Kernel} {held : Option Nat} {proc : Process} {fuel : Nat}

theorem SameTasks.trans (first : SameTasks kernel middle) (second : SameTasks middle after) :
    SameTasks kernel after where
  state pid := (second.state pid).trans (first.state pid)
  schedClass pid := (second.schedClass pid).trans (first.schedClass pid)
  nextPid := second.nextPid.trans first.nextPid
  current := second.current.trans first.current

theorem SameTasks.setNextReady (kernel : Kernel) (pid : Nat) (link : Option Nat) :
    SameTasks kernel (kernel.setNextReady pid link) :=
  ⟨setProc_view rfl, setProc_view rfl, rfl, rfl⟩

theorem SameQueues.trans (first : SameQueues kernel middle) (second : SameQueues middle after) :
    SameQueues kernel after where
  toSameTasks := first.toSameTasks.trans second.toSameTasks
  nextReady := second.nextReady.trans first.nextReady
  listHead := second.listHead.trans first.listHead
  mlfqTails := second.mlfqTails.trans first.mlfqTails

theorem SameQueues.setProc (state : proc.state = (kernel.procs pid).state)
    (schedClass : proc.schedClass = (kernel.procs pid).schedClass)
    (link : proc.nextReady = (kernel.procs pid).nextReady) : SameQueues kernel (kernel.setProc pid proc) where
  state := setProc_view state
  schedClass := setProc_view schedClass
  nextReady := funext (setProc_view link)
  listHead := rfl
  mlfqTails := rfl
  nextPid := rfl
  current := rfl

theorem Wired.congr (wired : kernel.Wired items) (sameNext : after.nextReady = kernel.nextReady)
    (sameHeads : after.listHead = kernel.listHead) (sameTails : after.mlfqTails = kernel.mlfqTails) :
    after.Wired items := by
  refine ⟨?_, ?_⟩
  · rw [sameNext, sameHeads]
    exact wired.lists
  · rw [sameTails]
    exact wired.tails

/-- Queueing a process changes links, heads and the state of that process. -/
structure Requeued (before after : Kernel) (pid : Nat) : Prop where
  state : ∀ other, (after.procs other).state =
    if other = pid then .ready else (before.procs other).state
  schedClass : ∀ other, (after.procs other).schedClass = (before.procs other).schedClass
  nextPid : after.nextPid = before.nextPid
  current : after.current = before.current
  globalTicks : after.globalTicks = before.globalTicks
  processList : after.processList = before.processList
  sync : after.toSyncState = before.toSyncState

theorem enqueueTaskMlfq_requeued (kernel : Kernel) (pid : Nat) :
    Requeued kernel (kernel.enqueueTaskMlfq pid) pid := by
  have marked : Requeued kernel (kernel.markReady pid) pid := by
    refine ⟨fun other => ?_, fun other => ?_, rfl, rfl, rfl, rfl, rfl⟩ <;>
      by_cases same : other = pid <;> simp [markReady, setState, setNextReady, same]
  simp only [Kernel.enqueueTaskMlfq]
  split
  · exact ⟨marked.state, marked.schedClass, rfl, rfl, rfl, rfl, rfl⟩
  · exact marked
  · rename_i tail _ _
    have linked := SameTasks.setNextReady (kernel.markReady pid) tail (some pid)
    exact ⟨fun other => (linked.state other).trans (marked.state other),
      fun other => (linked.schedClass other).trans (marked.schedClass other), rfl, rfl, rfl, rfl, rfl⟩

theorem enqueueProcess_eq (mlfq : (kernel.procs pid).schedClass = .mlfq) (ready : (kernel.procs pid).state = .ready) :
    kernel.enqueueProcess fuel pid = some (kernel.enqueueTaskMlfq pid) := by
  simp only [enqueueProcess, ready, mlfq, ne_eq, not_true_eq_false, if_false]

theorem SameTasks.setLevel (same : SameTasks kernel after) (level : Fin mlfqLevels) (head tail : Option Nat) :
    SameTasks kernel (after.setLevel level head tail) :=
  ⟨same.state, same.schedClass, same.nextPid, same.current⟩

theorem Wired.replace (wired : kernel.Wired items) (noTail : ∀ level, place ≠ .level level)
    (lists : Lists after.nextReady after.listHead (update items place newItems))
    (sameTails : after.mlfqTails = kernel.mlfqTails) : after.Wired (update items place newItems) := by
  refine ⟨lists, fun level => ?_⟩
  rw [sameTails, update_of_ne (noTail level).symm]
  exact wired.tails level

theorem setCfsQueue_listHead (kernel : Kernel) (head : Option Nat) :
    { kernel with cfsQueue := head }.listHead = update kernel.listHead .fair head := by
  funext place
  cases place <;> simp [listHead]

theorem setSleepQueue_listHead (kernel : Kernel) (head : Option Nat) :
    { kernel with sleepQueue := head }.listHead = update kernel.listHead .sleep head := by
  funext place
  cases place <;> simp [listHead]

theorem pickNextTaskMlfq_eq_none : kernel.pickNextTaskMlfq = none ↔ ∀ level, kernel.mlfqQueues level = none := by
  constructor
  · intro idle level
    simp only [Kernel.pickNextTaskMlfq] at idle
    split at idle
    · rename_i empty
      simpa using find?_eq_none.mp empty level (mem_finRange level)
    · rename_i found
      have nonempty := find?_some found
      split at idle
      · rename_i empty
        simp [empty] at nonempty
      · cases idle
  · intro empty
    have none : (List.finRange mlfqLevels).find? (fun level => (kernel.mlfqQueues level).isSome) =
        none := find?_eq_none.mpr fun level _ => by simp [empty level]
    simp only [Kernel.pickNextTaskMlfq, none]

theorem pickNextTask_eq_none : kernel.pickNextTask = none ↔
    ∀ place, place ≠ .sleep → kernel.listHead place = none := by
  constructor
  · intro idle place runQueue
    simp only [Kernel.pickNextTask] at idle
    split at idle
    · cases idle
    · rename_i noLevel
      cases place with
      | level level => exact pickNextTaskMlfq_eq_none.mp noLevel level
      | fair =>
        simp only [Kernel.pickNextTaskFair] at idle
        split at idle
        · assumption
        · cases idle
      | sleep => exact absurd rfl runQueue
  · intro empty
    have noLevel : kernel.pickNextTaskMlfq = none :=
      pickNextTaskMlfq_eq_none.mpr fun level => empty (.level level) (by simp)
    have noFair : kernel.cfsQueue = none := empty .fair (by simp)
    simp only [Kernel.pickNextTask, noLevel, Kernel.pickNextTaskFair, noFair]

theorem SameQueues.demote (kernel : Kernel) (pid : Nat) : SameQueues kernel (kernel.demote pid) := by
  simp only [Kernel.demote]
  split
  · exact SameQueues.setProc rfl rfl rfl
  · exact ⟨⟨fun _ => rfl, fun _ => rfl, rfl, rfl⟩, rfl, rfl, rfl⟩

namespace Queued

section

variable (queued : kernel.Queued items held)
include queued

theorem congr (same : SameQueues kernel after) : after.Queued items held where
  toWired := queued.toWired.congr same.nextReady same.listHead same.mlfqTails
  ready pid ready := queued.ready pid (same.state pid ▸ ready)
  detached pid detached := queued.detached pid (by rwa [Detached, same.state] at detached)
  held pid isHeld := by
    rw [same.nextPid]
    exact queued.held pid isHeld
  unborn pid unborn := by
    rw [same.state]
    exact queued.unborn pid (same.nextPid ▸ unborn)
  current_lt := by
    rw [same.current, same.nextPid]
    exact queued.current_lt
  classes pid := (same.schedClass pid).trans (queued.classes pid)

theorem born (alive : (kernel.procs pid).state ≠ .terminated) :
    pid < kernel.nextPid := by
  by_contra unborn
  exact alive (queued.unborn pid (Nat.le_of_not_lt unborn)).1

theorem detached_lt (detached : kernel.Detached pid) : pid < kernel.nextPid := by
  refine queued.born fun terminated => ?_
  rcases detached with running | blocked
  · cases terminated.symm.trans running
  · cases terminated.symm.trans blocked

theorem setProc (wired : (kernel.setProc pid proc).Wired items)
    (mlfq : proc.schedClass = .mlfq) (exists_ : pid < kernel.nextPid)
    (ready : proc.state = .ready → held = some pid ∨ ∃ place, place ≠ .sleep ∧ pid ∈ items place)
    (detached : proc.state = .running ∨ proc.state = .blocked → ∀ place, pid ∉ items place) :
    (kernel.setProc pid proc).Queued items held where
  toWired := wired
  ready other isReady := by
    rw [setProc_procs] at isReady
    split at isReady
    · rename_i same
      subst same
      exact ready isReady
    · exact queued.ready other isReady
  detached other isDetached := by
    rw [Detached, setProc_procs] at isDetached
    split at isDetached
    · rename_i same
      subst same
      exact detached isDetached
    · exact queued.detached other isDetached
  held := queued.held
  unborn other unborn := by
    rw [setProc_procs, if_neg (show other ≠ pid by rintro rfl; exact absurd exists_ (not_lt.mpr unborn))]
    exact queued.unborn other unborn
  current_lt := queued.current_lt
  classes other := by
    rw [setProc_procs]
    split
    · exact mlfq
    · exact queued.classes other

theorem listed_lt (listed : pid ∈ items place) : pid < kernel.nextPid := by
  by_contra unborn
  exact (queued.unborn pid (Nat.le_of_not_lt unborn)).2 place listed

theorem setCurrent (exists_ : pid < kernel.nextPid) :
    ({ kernel with current := pid } : Kernel).Queued items held :=
  ⟨⟨queued.lists, queued.tails⟩, queued.ready, queued.detached, queued.held, queued.unborn, exists_,
    queued.classes⟩

end

section

variable (queued : kernel.Queued items (some pid))
include queued

theorem release (idle : (kernel.procs pid).state ≠ .ready) :
    kernel.Queued items none :=
  { queued with
    ready := fun other ready => by
      rcases queued.ready other ready with same | listed
      · cases same
        exact absurd ready idle
      · exact .inr listed
    held := nofun }

theorem setProc_held (mlfq : proc.schedClass = .mlfq) :
    (kernel.setProc pid proc).Queued items (some pid) := by
  obtain ⟨exists_, unlinked⟩ := queued.held pid rfl
  refine queued.setProc ⟨?_, queued.tails⟩ mlfq exists_ (fun _ => .inl rfl) fun _ => unlinked
  rw [setProc_nextReady]
  exact queued.lists.congr fun place item listed =>
    update_of_ne (ne_of_mem_of_not_mem listed (unlinked place)) _ _

theorem setState_held (state : ProcessState) :
    (kernel.setState pid state).Queued items (some pid) :=
  queued.setProc_held (queued.classes pid)

/-- The held process is put at the end of a list. -/
theorem put {target : Place} (same : SameTasks kernel after)
    (wired : after.Wired (update items target (items target ++ [pid]))) (attached : ¬kernel.Detached pid)
    (runQueue : (kernel.procs pid).state = .ready → target ≠ .sleep) :
    after.Queued (update items target (items target ++ [pid])) none where
  toWired := wired
  ready other ready := by
    rw [same.state] at ready
    refine .inr ?_
    rcases queued.ready other ready with isPid | ⟨place, runs, listed⟩
    · cases isPid
      exact ⟨target, runQueue ready, mem_update_append.mpr (.inr ⟨rfl, rfl⟩)⟩
    · exact ⟨place, runs, mem_update_append.mpr (.inl listed)⟩
  detached other detached place listed := by
    rw [Detached, same.state] at detached
    rcases mem_update_append.mp listed with old | ⟨-, rfl⟩
    · exact queued.detached other detached place old
    · exact attached detached
  held := nofun
  unborn other unborn := by
    rw [same.nextPid] at unborn
    obtain ⟨terminated, absent⟩ := queued.unborn other unborn
    rw [same.state]
    refine ⟨terminated, fun place listed => ?_⟩
    rcases mem_update_append.mp listed with old | ⟨-, rfl⟩
    · exact absent place old
    · exact absurd (queued.held other rfl).1 (not_lt.mpr unborn)
  current_lt := by
    rw [same.current, same.nextPid]
    exact queued.current_lt
  classes other := (same.schedClass other).trans (queued.classes other)

theorem enqueueTaskMlfq :
    (kernel.enqueueTaskMlfq pid).Queued
      (update items (.level (mlfqLevel (kernel.procs pid).priority))
        (items (.level (mlfqLevel (kernel.procs pid).priority)) ++ [pid])) none := by
  have requeued := enqueueTaskMlfq_requeued kernel pid
  have same : SameTasks (kernel.setState pid .ready) (kernel.enqueueTaskMlfq pid) := by
    have class_eq : ∀ other, ((kernel.setState pid .ready).procs other).schedClass = _ :=
      setProc_view rfl
    refine ⟨fun other => ?_, fun other => (requeued.schedClass other).trans (class_eq other).symm,
      requeued.nextPid, requeued.current⟩
    rw [requeued.state, setState, setProc_procs, apply_ite Process.state]
  exact (queued.setState_held .ready).put same (queued.toWired.enqueueTaskMlfq (queued.held pid rfl).2)
    (by simp [Detached, setState]) fun _ => nofun

theorem enqueueProcess (done : kernel.enqueueProcess fuel pid = some after) :
    after.Reordered items none := by
  simp only [Kernel.enqueueProcess, queued.classes pid] at done
  split at done
  · rename_i idle
    cases done
    exact ⟨items, queued.release idle, rfl⟩
  · cases done
    exact ⟨_, queued.enqueueTaskMlfq, by simp⟩

theorem run : ({ kernel.setState pid .running with current := pid } : Kernel).Queued items none := by
  refine ((queued.setState_held .running).release ?_).setCurrent (queued.held pid rfl).1
  simp [setState]

end

variable (queued : kernel.Queued items none)
include queued

theorem hold (exists_ : pid < kernel.nextPid)
    (unlinked : ∀ place, pid ∉ items place) : kernel.Queued items (some pid) :=
  { queued with
    ready := fun other ready => .inr ((queued.ready other ready).resolve_left nofun)
    held := fun other same => by
      cases same
      exact ⟨exists_, unlinked⟩ }

theorem makeReady (detached : kernel.Detached pid)
    (done : kernel.makeReady fuel pid = some after) :
    after.Reordered items none :=
  ((queued.hold (queued.detached_lt detached) (queued.detached pid detached)).setState_held
    .ready).enqueueProcess done


theorem take {newItems : Place → List Nat} {place : Place} (same : SameTasks kernel after)
    (wired : after.Wired newItems) (listed : pid ∈ items place)
    (removed : ∀ place other, other ∈ newItems place ↔ other ∈ items place ∧ other ≠ pid) :
    after.Queued newItems (some pid) where
  toWired := wired
  ready other ready := by
    rw [same.state] at ready
    obtain ⟨place, runQueue, listed⟩ := (queued.ready other ready).resolve_left (by simp)
    by_cases isPid : other = pid
    · exact .inl (by rw [isPid])
    · exact .inr ⟨place, runQueue, (removed place other).mpr ⟨listed, isPid⟩⟩
  detached other detached place listed := by
    rw [Detached, same.state] at detached
    exact queued.detached other detached place ((removed place other).mp listed).1
  held other isPid := by
    cases isPid
    rw [same.nextPid]
    exact ⟨queued.listed_lt listed, fun place listed => ((removed place _).mp listed).2 rfl⟩
  unborn other unborn := by
    obtain ⟨terminated, absent⟩ := queued.unborn other (same.nextPid ▸ unborn)
    rw [same.state]
    exact ⟨terminated, fun place listed => absent place ((removed place other).mp listed).1⟩
  current_lt := by
    rw [same.current, same.nextPid]
    exact queued.current_lt
  classes other := (same.schedClass other).trans (queued.classes other)

/-- The first process of a run queue is taken off it. -/
theorem pop {next : Nat} (same : SameTasks kernel after)
    (place : Place) (head : kernel.listHead place = some next) (runQueue : place ≠ .sleep)
    (wired : ∀ rest, items place = next :: rest → after.Wired (update items place rest)) :
    after.Reordered items (some next) ∧
      ¬ kernel.Detached next := by
  rw [queued.lists.head_eq] at head
  obtain ⟨rest, shape⟩ := head?_eq_some_iff.mp head
  have listed : next ∈ items place := by simp [shape]
  refine ⟨⟨_, queued.take same (wired rest shape) listed fun place other => ?_, update_of_ne runQueue.symm ..⟩,
    fun detached => queued.detached next detached place listed⟩
  exact queued.lists.mem_remove (show items _ = [] ++ next :: rest from shape)

theorem pickNextTaskMlfq {next : Nat} (picked : kernel.pickNextTaskMlfq = some (next, after)) :
    after.Reordered items (some next) ∧
      ¬ kernel.Detached next := by
  simp only [Kernel.pickNextTaskMlfq] at picked
  split at picked
  · cases picked
  · rename_i level _
    split at picked
    · cases picked
    · rename_i head
      cases picked
      refine queued.pop ((SameTasks.setNextReady kernel next none).setLevel level _ _) (.level level) head (by simp)
        fun rest shape => ?_
      change ((kernel.setNextReady next none).setLevel level _ _).Wired _
      refine queued.toWired.setLevel ?_ rfl rfl ?_
      · rw [setNextReady_nextReady]
        exact queued.lists.pop shape none
      · rw [queued.tails level, shape]
        exact (queued.lists.walk shape).getLast?_pop

theorem pickNextTaskFair {next : Nat} (picked : kernel.pickNextTaskFair = some (next, after)) :
    after.Reordered items (some next) ∧
      ¬ kernel.Detached next := by
  simp only [Kernel.pickNextTaskFair] at picked
  split at picked
  · cases picked
  · rename_i head
    cases picked
    have same := SameTasks.setNextReady kernel next none
    refine queued.pop ⟨same.state, same.schedClass, rfl, rfl⟩ .fair head (by simp) fun rest shape =>
      queued.toWired.replace (by simp) ?_ rfl
    change Lists (kernel.setNextReady next none).nextReady
      ({ kernel with cfsQueue := (kernel.procs next).nextReady } : Kernel).listHead _
    rw [setCfsQueue_listHead, setNextReady_nextReady]
    exact queued.lists.pop shape none

theorem pickNextTask {next : Nat} (picked : kernel.pickNextTask = some (next, after)) :
    after.Reordered items (some next) ∧
      ¬ kernel.Detached next := by
  simp only [Kernel.pickNextTask] at picked
  split at picked
  · rename_i found
    cases picked
    exact queued.pickNextTaskMlfq found
  · exact queued.pickNextTaskFair picked

theorem not_ready_of_pickNextTask_eq_none (idle : kernel.pickNextTask = none) (pid : Nat) :
    (kernel.procs pid).state ≠ .ready := by
  intro ready
  obtain ⟨place, runQueue, listed⟩ := (queued.ready pid ready).resolve_left (by simp)
  have head := pickNextTask_eq_none.mp idle place runQueue
  rw [queued.lists.head_eq, head?_eq_none_iff] at head
  simp [head] at listed

theorem requeueCurrent_eq (fuel : Nat)
    (running : (kernel.procs kernel.current).state = .running) : kernel.requeueCurrent fuel =
      some (((kernel.setState kernel.current .ready).demote kernel.current).enqueueTaskMlfq kernel.current) := by
  have demoted := SameQueues.demote (kernel.setState kernel.current .ready) kernel.current
  rw [Kernel.requeueCurrent, if_pos running]
  refine enqueueProcess_eq ((demoted.schedClass _).trans ?_) ((demoted.state _).trans ?_)
  · simpa [setState] using queued.classes kernel.current
  · simp [setState]

theorem requeueCurrent (done : kernel.requeueCurrent fuel = some after) :
    after.Reordered items none := by
  simp only [Kernel.requeueCurrent] at done
  split at done
  · rename_i running
    have held := queued.hold queued.current_lt (queued.detached _ (.inl running))
    exact ((held.setState_held .ready).congr (SameQueues.demote ..)).enqueueProcess done
  · cases done
    exact ⟨items, queued, rfl⟩

theorem switchToNext :
    kernel.switchToNext.Reordered items none := by
  simp only [Kernel.switchToNext]
  split
  · rename_i picked
    obtain ⟨⟨newItems, held, sleepers⟩, -⟩ := queued.pickNextTask picked
    exact ⟨newItems, held.run, sleepers⟩
  · rename_i idle
    rw [if_neg (queued.not_ready_of_pickNextTask_eq_none idle kernel.current)]
    exact ⟨items, queued, rfl⟩

theorem processSchedule (done : kernel.processSchedule fuel = some after) :
    after.Reordered items none := by
  obtain ⟨middle, requeued, rfl⟩ := Option.map_eq_some_iff.mp done
  obtain ⟨middleItems, queued, middleSleepers⟩ := queued.requeueCurrent requeued
  obtain ⟨newItems, queued, sleepers⟩ := queued.switchToNext
  exact ⟨newItems, queued, sleepers.trans middleSleepers⟩

end Queued

end Kernel

end Rucix.Sched
