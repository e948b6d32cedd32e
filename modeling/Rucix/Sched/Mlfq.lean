import Rucix.Sched.RunQueues
import Rucix.Data.Run

namespace Rucix.Sched

open Rucix.Data Function List

/-! The run queues of `kernel/process/sched_mlfq.c` on their own: the processes
that wait are kept in the order in which they were enqueued. -/

namespace Kernel

/-- The body of the loop of `dequeue_task_mlfq` where the process is found.
The link to it is that of `prev` or `mlfq_queues[level]`. -/
def unlinkTask (kernel : Kernel) (level : Fin mlfqLevels) (pid : Nat) (prev : Option Nat) : Kernel :=
  let link := (kernel.procs pid).nextReady
  let kernel := match prev with
    | none => kernel.setLevel level link (kernel.mlfqTails level)
    | some before => kernel.setNextReady before link
  let kernel := if kernel.mlfqTails level = some pid then
      kernel.setLevel level (kernel.mlfqQueues level) prev
    else kernel
  kernel.setNextReady pid none

/-- The loop of `dequeue_task_mlfq`. -/
def dequeueFrom (kernel : Kernel) (level : Fin mlfqLevels) (pid : Nat) :
    (fuel : Nat) → (prev : Option Nat) → Option Kernel
  | 0, _ => none
  | fuel + 1, prev =>
    match prev.elim (kernel.mlfqQueues level) fun before => (kernel.procs before).nextReady with
    | none => some kernel
    | some queued =>
      if queued = pid then some (kernel.unlinkTask level pid prev)
      else kernel.dequeueFrom level pid fuel (some queued)

def dequeueTaskMlfq (fuel : Nat) (kernel : Kernel) (pid : Nat) : Option Kernel :=
  kernel.dequeueFrom (mlfqLevel (kernel.procs pid).priority) pid fuel none

/-- The levels are separate lists, and each tail pointer is the last process of
its list. -/
structure Leveled (kernel : Kernel) (items : Fin mlfqLevels → List Nat) : Prop where
  lists : Lists kernel.nextReady kernel.mlfqQueues items
  tails : ∀ level, kernel.mlfqTails level = (items level).getLast?

theorem unlinkTask_first (kernel : Kernel) (pid : Nat) : kernel.unlinkTask level pid none =
      (kernel.setNextReady pid none).setLevel level (kernel.nextReady pid)
        (if kernel.mlfqTails level = some pid then none else kernel.mlfqTails level) := by
  by_cases last : kernel.mlfqTails level = some pid <;>
    simp [unlinkTask, setLevel, last, setNextReady, setProc, nextReady]

theorem unlinkTask_behind (kernel : Kernel) (pid : Nat) :
    kernel.unlinkTask level pid (some before) =
      ((kernel.setNextReady before (kernel.nextReady pid)).setNextReady pid none).setLevel level
        (kernel.mlfqQueues level)
        (if kernel.mlfqTails level = some pid then some before else kernel.mlfqTails level) := by
  by_cases last : kernel.mlfqTails level = some pid <;>
    simp [unlinkTask, setLevel, last, setNextReady, setProc, nextReady]

end Kernel

def SamePriorities (before after : Kernel) : Prop :=
  ∀ pid, (after.procs pid).priority = (before.procs pid).priority

namespace SamePriorities

variable {kernel next : Kernel} {level : Fin mlfqLevels}

theorem beside : Kernel.Beside Process.priority := ⟨fun _ _ => rfl, fun _ _ => rfl⟩

theorem setNextReady (same : SamePriorities kernel next) (pid : Nat) :
    SamePriorities kernel (next.setNextReady pid link) :=
  fun other => ((Kernel.Kept.setNextReady beside next pid link).fields other).trans (same other)

theorem enqueueTaskMlfq (pid : Nat) : SamePriorities kernel (kernel.enqueueTaskMlfq pid) :=
  (Kernel.Kept.enqueueTaskMlfq beside kernel pid).fields

theorem unlinkTask (level : Fin mlfqLevels) (pid : Nat) (prev : Option Nat) :
    SamePriorities kernel (kernel.unlinkTask level pid prev) := by
  have start : SamePriorities kernel kernel := fun _ => rfl
  cases prev with
  | none =>
    rw [Kernel.unlinkTask_first]
    exact start.setNextReady pid
  | some before =>
    rw [Kernel.unlinkTask_behind]
    exact (start.setNextReady before).setNextReady pid

theorem pickNextTaskMlfq (done : kernel.pickNextTaskMlfq = some picked) : SamePriorities kernel picked.2 := by
  obtain ⟨next, after⟩ := picked
  obtain ⟨queues, tails, rfl⟩ := Kernel.pickNextTaskMlfq_eq done
  exact (Kernel.Kept.setNextReady beside kernel next none).fields

end SamePriorities

namespace Kernel

variable {kernel after : Kernel} {pid : Nat} {level : Fin mlfqLevels} {before : List Nat}

namespace Leveled

variable (leveled : kernel.Leveled items)
include leveled

theorem link_eq (shape : items level = before ++ rest) :
    (before.getLast?.elim (kernel.mlfqQueues level) fun before => (kernel.procs before).nextReady) =
      rest.head? := by
  rcases eq_nil_or_concat before with rfl | ⟨init, last, rfl⟩
  · simpa [shape] using leveled.lists.head_eq level
  · have split : items level = init ++ last :: rest := by simp [shape]
    simpa [nextReady] using leveled.lists.next_eq split

theorem setLevel {other : Kernel} {head tail : Option Nat} {newItems : List Nat}
    (lists : Lists other.nextReady (update kernel.mlfqQueues level head)
      (update items level newItems)) (sameHeads : other.mlfqQueues = kernel.mlfqQueues)
    (sameTails : other.mlfqTails = kernel.mlfqTails) (last : tail = newItems.getLast?) :
    (other.setLevel level head tail).Leveled (update items level newItems) := by
  refine ⟨?_, fun target => ?_⟩
  · change Lists other.nextReady (update other.mlfqQueues level head) _
    rw [sameHeads]
    exact lists
  · simp only [Kernel.setLevel, sameTails]
    by_cases same : target = level
    · subst same
      simp [last]
    · simpa [same] using leveled.tails target

theorem enqueueTaskMlfq (unlinked : ∀ level, pid ∉ items level)
    (target : mlfqLevel (kernel.procs pid).priority = level) :
    (kernel.enqueueTaskMlfq pid).Leveled (update items level (items level ++ [pid])) := by
  have head := leveled.lists.head_eq level
  cases tail : (items level).getLast? with
  | none =>
    have empty := getLast?_eq_none_iff.mp tail
    rw [empty] at head
    rw [enqueueTaskMlfq_empty target head, empty]
    refine leveled.setLevel ?_ rfl rfl rfl
    rw [markReady_nextReady]
    exact leveled.lists.single unlinked
  | some last =>
    obtain ⟨before, shape⟩ := getLast?_eq_some_iff.mp tail
    rw [enqueueTaskMlfq_behind target (by simp [head, shape]) ((leveled.tails level).trans tail)]
    refine leveled.setLevel ?_ rfl rfl (by simp)
    rw [setNextReady_nextReady, markReady_nextReady, update_eq_self]
    exact leveled.lists.pushBack shape unlinked

theorem unlinkTask (shape : items level = before ++ pid :: behind) :
    (kernel.unlinkTask level pid before.getLast?).Leveled
      (update items level (before ++ behind)) := by
  have distinct := leveled.lists.nodup level
  rw [shape] at distinct
  have tail := getLast?_remove distinct
  rw [← shape, ← leveled.tails level] at tail
  rcases eq_nil_or_concat before with rfl | ⟨init, last, rfl⟩
  · rw [getLast?_nil, unlinkTask_first]
    refine leveled.setLevel ?_ rfl rfl tail
    rw [setNextReady_nextReady]
    exact leveled.lists.pop shape none
  · rw [concat_eq_append] at shape tail ⊢
    rw [getLast?_append, getLast?_singleton, Option.some_or] at tail ⊢
    rw [unlinkTask_behind]
    refine leveled.setLevel ?_ rfl rfl tail
    have split : items level = init ++ last :: pid :: behind := by simp [shape]
    rw [setNextReady_nextReady, setNextReady_nextReady, update_eq_self, append_assoc]
    refine (leveled.lists.unlink split).congr fun place other member => ?_
    rw [← singleton_append, ← append_assoc] at member
    exact update_of_ne ((leveled.lists.mem_remove shape).mp member).2 _ _

/-- The search ends at the process or at the end of the list, unless the fuel does not reach. -/
theorem dequeueFrom (shape : items level = before ++ rest)
    (done : kernel.dequeueFrom level pid fuel before.getLast? = result) :
    (result = none ∧ fuel ≤ rest.length) ∨ (result = some kernel ∧ pid ∉ rest) ∨
      ∃ first second, result = some (kernel.unlinkTask level pid (before ++ first).getLast?) ∧
        rest = first ++ pid :: second := by
  induction rest generalizing before fuel with
  | nil =>
    cases fuel with
    | zero => exact .inl ⟨done.symm, le_rfl⟩
    | succ fuel =>
      simp only [Kernel.dequeueFrom, leveled.link_eq shape] at done
      exact .inr (.inl ⟨done.symm, not_mem_nil⟩)
  | cons queued rest ih =>
    cases fuel with
    | zero => exact .inl ⟨done.symm, Nat.zero_le _⟩
    | succ fuel =>
      simp only [Kernel.dequeueFrom, leveled.link_eq shape, head?_cons] at done
      split at done
      · rename_i same
        exact .inr (.inr ⟨[], rest, by simp [← done], by simp [same]⟩)
      · rename_i different
        have further : items level = (before ++ [queued]) ++ rest := by simp [shape]
        rcases ih further (by simpa using done) with ⟨spent, short⟩ | ⟨unchanged, absent⟩ |
          ⟨first, second, unlinked, found⟩
        · exact .inl ⟨spent, Nat.succ_le_succ short⟩
        · exact .inr (.inl ⟨unchanged, by simp [absent, Ne.symm different]⟩)
        · exact .inr (.inr ⟨queued :: first, second, by simpa using unlinked, by simp [found]⟩)

theorem dequeueTaskMlfq (placed : ∀ level, pid ∈ items level → mlfqLevel (kernel.procs pid).priority = level)
    (done : kernel.dequeueTaskMlfq fuel pid = some after) :
    SamePriorities kernel after ∧ after.Leveled fun level => (items level).filter (· ≠ pid) := by
  obtain ⟨level, target⟩ : ∃ level, mlfqLevel (kernel.procs pid).priority = level := ⟨_, rfl⟩
  rw [Kernel.dequeueTaskMlfq, target] at done
  rcases leveled.dequeueFrom (nil_append (items level)).symm done with
    ⟨spent, -⟩ | ⟨same, absent⟩ | ⟨before, behind, unlinked, shape⟩
  · cases spent
  · have unchanged : (fun level => (items level).filter (· ≠ pid)) = items := by
      funext other
      refine filter_eq_self.mpr fun queued member => ?_
      simp only [decide_not, Bool.not_eq_eq_eq_not, Bool.not_true, decide_eq_false_iff_not]
      rintro rfl
      exact absent (target ▸ placed other member ▸ member)
    cases same
    rw [unchanged]
    exact ⟨fun _ => rfl, leveled⟩
  · cases unlinked
    rw [leveled.lists.filter_ne shape]
    exact ⟨SamePriorities.unlinkTask level pid _, leveled.unlinkTask shape⟩

/-- A pick takes the first process of the first level in use. -/
theorem pickNextTaskMlfq {next : Nat} (picked : kernel.pickNextTaskMlfq = some (next, after)) :
    ∃ level, (∀ lower < level, items lower = []) ∧ (items level).head? = some next ∧
      after.Leveled fun level => (items level).filter (· ≠ next) := by
  simp only [Kernel.pickNextTaskMlfq] at picked
  split at picked
  · cases picked
  · rename_i level found
    split at picked
    · cases picked
    · rename_i head
      cases picked
      rw [leveled.lists.head_eq] at head
      obtain ⟨rest, shape⟩ := head?_eq_some_iff.mp head
      have split : items level = [] ++ next :: rest := shape
      refine ⟨level, fun lower below => ?_, head, ?_⟩
      · obtain ⟨-, position, bound, same, vacant⟩ := find?_eq_some_iff_getElem.mp found
        rw [getElem_finRange] at same
        have earlier : lower.val < position := by
          rw [← same] at below
          exact below
        have unused := vacant lower.val earlier
        simpa [leveled.lists.head_eq] using unused
      · rw [leveled.lists.filter_ne split]
        change ((kernel.setNextReady next none).setLevel level (kernel.procs next).nextReady _).Leveled _
        refine leveled.setLevel ?_ rfl rfl ?_
        · rw [setNextReady_nextReady]
          exact leveled.lists.pop shape none
        · rw [leveled.tails level, shape]
          exact (leveled.lists.walk shape).getLast?_pop

end Leveled

end Kernel

/-- The calls, with the priority a process is enqueued at and the result of a
pick.  `setPriority` stands for whatever assigns `p->priority` in between. -/
inductive MlfqEvent where
  | enqueue (pid : Nat) (priority : Int)
  | dequeue (pid : Nat)
  | pick (next : Option Nat)
  | setPriority (pid : Nat) (priority : Int)
deriving DecidableEq, Repr

/-- A process that was enqueued and neither picked nor dequeued since, with the
level of its priority then. -/
structure Waiting where
  pid : Nat
  level : Fin mlfqLevels
deriving DecidableEq, Repr

/-- What an event does to the waiting processes, kept in enqueue order. -/
def MlfqEvent.record (waiting : List Waiting) : MlfqEvent → List Waiting
  | .enqueue pid priority => waiting ++ [⟨pid, Kernel.mlfqLevel priority⟩]
  | .dequeue pid => waiting.filter (·.pid ≠ pid)
  | .pick none => waiting
  | .pick (some next) => waiting.filter (·.pid ≠ next)
  | .setPriority _ _ => waiting

def waitingAfter (trace : List MlfqEvent) : List Waiting := trace.foldl MlfqEvent.record []

def atLevel (waiting : List Waiting) (level : Fin mlfqLevels) : List Nat :=
  (waiting.filter (·.level = level)).map (·.pid)

/-- What a call does to the queues. -/
def MlfqEvent.Performs (before after : Kernel) : MlfqEvent → Prop
  | .enqueue pid priority =>
    (before.procs pid).priority = priority ∧ after = before.enqueueTaskMlfq pid
  | .dequeue pid => ∃ fuel, before.dequeueTaskMlfq fuel pid = some after
  | .pick next => before.pickNextTaskMlfq.elim (next = none ∧ after = before) fun picked =>
    next = some picked.1 ∧ after = picked.2
  | .setPriority pid priority => after = before.setPriority pid priority

/-- The rules for callers: a process is enqueued only when it does not wait, and
its priority does not change while it does. -/
def MlfqEvent.Allowed (waiting : List Waiting) : MlfqEvent → Prop
  | .enqueue pid _ | .setPriority pid _ => ∀ entry ∈ waiting, entry.pid ≠ pid
  | .dequeue _ | .pick _ => True

instance (waiting : List Waiting) (event : MlfqEvent) : Decidable (event.Allowed waiting) := by
  cases event <;> unfold MlfqEvent.Allowed <;> infer_instance

structure Schedule where
  kernel : Kernel
  waiting : List Waiting

def MlfqStep (before : Schedule) (event : MlfqEvent) (after : Schedule) : Prop :=
  event.Allowed before.waiting ∧ event.Performs before.kernel after.kernel ∧
    after.waiting = event.record before.waiting

structure Schedule.Ordered (schedule : Schedule) : Prop where
  leveled : schedule.kernel.Leveled (atLevel schedule.waiting)
  distinct : (schedule.waiting.map (·.pid)).Nodup
  placed : ∀ entry ∈ schedule.waiting,
    Kernel.mlfqLevel (schedule.kernel.procs entry.pid).priority = entry.level

variable {before after : Schedule} {event : MlfqEvent} {waiting : List Waiting} {pid : Nat}

theorem mem_atLevel : pid ∈ atLevel waiting level ↔ ⟨pid, level⟩ ∈ waiting := by
  simp only [atLevel, mem_map, mem_filter, decide_eq_true_eq]
  constructor
  · rintro ⟨⟨_, _⟩, ⟨member, rfl⟩, rfl⟩
    exact member
  · exact fun member => ⟨_, ⟨member, rfl⟩, rfl⟩

theorem notMem_atLevel (absent : ∀ entry ∈ waiting, entry.pid ≠ pid) (level : Fin mlfqLevels) :
    pid ∉ atLevel waiting level :=
  fun member => absent _ (mem_atLevel.mp member) rfl

theorem atLevel_append (waiting : List Waiting) : atLevel (waiting ++ [⟨pid, level⟩]) =
      update (atLevel waiting) level (atLevel waiting level ++ [pid]) := by
  funext other
  by_cases same : other = level
  · subst same
    simp [atLevel]
  · simp [atLevel, same, Ne.symm same]

theorem atLevel_filter (waiting : List Waiting) :
    atLevel (waiting.filter (·.pid ≠ pid)) = fun level => (atLevel waiting level).filter (· ≠ pid) := by
  funext level
  simp only [atLevel, filter_map, filter_filter]
  congr 2
  funext entry
  exact Bool.and_comm ..

namespace Schedule.Ordered

theorem enqueue (ordered : before.Ordered) (absent : ∀ entry ∈ before.waiting, entry.pid ≠ pid) :
    Ordered ⟨before.kernel.enqueueTaskMlfq pid,
      before.waiting ++ [⟨pid, Kernel.mlfqLevel (before.kernel.procs pid).priority⟩]⟩ where
  leveled := by
    rw [atLevel_append]
    exact ordered.leveled.enqueueTaskMlfq (notMem_atLevel absent) rfl
  distinct := by
    rw [map_append, nodup_append]
    refine ⟨ordered.distinct, nodup_singleton _, ?_⟩
    intro first member second single
    obtain ⟨entry, listed, rfl⟩ := mem_map.mp member
    rw [mem_singleton.mp single]
    exact absent entry listed
  placed entry member := by
    rw [SamePriorities.enqueueTaskMlfq pid]
    rcases mem_append.mp member with old | new
    · exact ordered.placed entry old
    · rw [mem_singleton.mp new]

theorem remove {kernel : Kernel} (ordered : before.Ordered) (same : SamePriorities before.kernel kernel)
    (leveled : kernel.Leveled fun level => (atLevel before.waiting level).filter (· ≠ pid)) :
    Ordered ⟨kernel, before.waiting.filter (·.pid ≠ pid)⟩ where
  leveled := by
    rw [atLevel_filter]
    exact leveled
  distinct := ordered.distinct.sublist (filter_sublist.map _)
  placed entry member := by
    rw [same]
    exact ordered.placed entry (mem_of_mem_filter member)

theorem setPriority (ordered : before.Ordered) (absent : ∀ entry ∈ before.waiting, entry.pid ≠ pid) (priority : Int) :
    Ordered ⟨before.kernel.setPriority pid priority, before.waiting⟩ where
  leveled := by
    refine ⟨?_, ordered.leveled.tails⟩
    have sameNext : (before.kernel.setPriority pid priority).nextReady = before.kernel.nextReady :=
      funext (Kernel.setProc_view rfl)
    rw [sameNext]
    exact ordered.leveled.lists
  distinct := ordered.distinct
  placed entry member := by
    rw [Kernel.setPriority, Kernel.setProc_procs, if_neg (absent entry member)]
    exact ordered.placed entry member

end Schedule.Ordered

theorem MlfqStep.ordered (ordered : before.Ordered) (step : MlfqStep before event after) : after.Ordered := by
  obtain ⟨kernel, waiting⟩ := after
  obtain ⟨allowed, performed, rfl⟩ := step
  cases event with
  | enqueue pid priority =>
    obtain ⟨rfl, rfl⟩ := performed
    exact ordered.enqueue allowed
  | dequeue pid =>
    obtain ⟨fuel, done⟩ := performed
    have ⟨same, leveled⟩ := ordered.leveled.dequeueTaskMlfq
      (fun level member => ordered.placed _ (mem_atLevel.mp member)) done
    exact ordered.remove same leveled
  | pick next =>
    simp only [MlfqEvent.Performs] at performed
    cases picked : before.kernel.pickNextTaskMlfq with
    | none =>
      simp only [picked] at performed
      obtain ⟨rfl, rfl⟩ := performed
      exact ordered
    | some picked' =>
      simp only [picked] at performed
      obtain ⟨rfl, rfl⟩ := performed
      obtain ⟨level, -, -, leveled⟩ := ordered.leveled.pickNextTaskMlfq picked
      exact ordered.remove (SamePriorities.pickNextTaskMlfq picked) leveled
  | setPriority pid priority =>
    cases performed
    exact ordered.setPriority allowed priority

theorem run_waiting (run : Run MlfqStep start trace after) :
    after.waiting = trace.foldl MlfqEvent.record start.waiting := by
  induction run with
  | nil => rfl
  | snoc earlier last ih => rw [foldl_append, ← ih, last.2.2]; rfl

def Kernel.MlfqEmpty (kernel : Kernel) : Prop :=
  ∀ level, kernel.mlfqQueues level = none ∧ kernel.mlfqTails level = none

theorem Kernel.MlfqEmpty.ordered (empty : kernel.MlfqEmpty) : Schedule.Ordered ⟨kernel, []⟩ where
  leveled :=
    ⟨⟨fun level => (empty level).1, fun _ => nodup_nil, fun _ _ _ member => nomatch member⟩,
      fun level => (empty level).2⟩
  distinct := nodup_nil
  placed _ member := nomatch member

theorem run_ordered {final : Schedule} (empty : start.MlfqEmpty) (run : Run MlfqStep ⟨start, []⟩ trace final) :
    final.Ordered :=
  run.invariant empty.ordered fun _ _ _ ordered step => step.ordered ordered

theorem Schedule.Ordered.dequeue_returns (ordered : after.Ordered) (enough : after.waiting.length < fuel) :
    ∃ dequeued, after.kernel.dequeueTaskMlfq fuel pid = some dequeued := by
  rcases ordered.leveled.dequeueFrom (nil_append _).symm rfl with ⟨-, short⟩ | ⟨done, -⟩ | ⟨_, _, done, -⟩
  · rw [atLevel, length_map] at short
    exact absurd (short.trans (length_filter_le ..)) (not_le.mpr enough)
  · exact ⟨_, done⟩
  · exact ⟨_, done⟩

/-- The list of each level is the processes that wait there in enqueue order, its tail
pointer is the last of them, a pick takes the longest-waiting process of the first level in
use, and the search of a dequeue ends. -/
theorem mlfq_queues_hold_waiting {start : Kernel} {trace : List MlfqEvent} {final : Schedule}
    (empty : start.MlfqEmpty) (run : Run MlfqStep ⟨start, []⟩ trace final) :
    (∀ level, Linked final.kernel.nextReady (final.kernel.mlfqQueues level)
          (atLevel (waitingAfter trace) level) none ∧
        final.kernel.mlfqTails level = (atLevel (waitingAfter trace) level).getLast? ∧
        (final.kernel.mlfqQueues level = none ↔ final.kernel.mlfqTails level = none)) ∧
      ((waitingAfter trace).map (·.pid)).Nodup ∧
      (final.kernel.pickNextTaskMlfq = none ↔ waitingAfter trace = []) ∧
      (∀ next after, final.kernel.pickNextTaskMlfq = some (next, after) →
        ∃ level, (∀ lower < level, atLevel (waitingAfter trace) lower = []) ∧
          (atLevel (waitingAfter trace) level).head? = some next) ∧
      ∀ pid fuel, (waitingAfter trace).length < fuel →
        ∃ after, final.kernel.dequeueTaskMlfq fuel pid = some after := by
  have ordered := run_ordered empty run
  have recorded : final.waiting = waitingAfter trace := run_waiting run
  rw [← recorded]
  have leveled := ordered.leveled
  refine ⟨fun level => ⟨leveled.lists.linked level, leveled.tails level, ?_⟩, ordered.distinct, ?_, ?_, ?_⟩
  · rw [leveled.lists.head_eq, leveled.tails, head?_eq_none_iff, getLast?_eq_none_iff]
  · rw [Kernel.pickNextTaskMlfq_eq_none]
    constructor
    · intro unused
      refine eq_nil_iff_forall_not_mem.mpr fun entry member => ?_
      have vacant := unused entry.level
      rw [leveled.lists.head_eq, head?_eq_none_iff] at vacant
      exact not_mem_nil (vacant ▸ mem_atLevel.mpr member)
    · intro nobody level
      rw [leveled.lists.head_eq, nobody]
      rfl
  · intro next after picked
    obtain ⟨level, vacant, first, -⟩ := leveled.pickNextTaskMlfq picked
    exact ⟨level, vacant, first⟩
  · exact fun pid fuel enough => ordered.dequeue_returns enough

def requeuedTail : List MlfqEvent :=
  [.enqueue 1 0, .enqueue 2 0, .dequeue 2, .setPriority 2 9, .enqueue 2 9, .enqueue 3 0, .pick (some 1)]

def MlfqEvent.outcome (schedule : Schedule) (event : MlfqEvent) : Schedule where
  kernel := match event with
    | .enqueue pid _ => schedule.kernel.enqueueTaskMlfq pid
    | .dequeue pid => (schedule.kernel.dequeueTaskMlfq 8 pid).getD schedule.kernel
    | .pick _ => (schedule.kernel.pickNextTaskMlfq.map Prod.snd).getD schedule.kernel
    | .setPriority pid priority => schedule.kernel.setPriority pid priority
  waiting := event.record schedule.waiting

theorem mlfq_queues_hold_waiting_requeued :
    ∃ final, Run MlfqStep ⟨Kernel.boot, []⟩ requeuedTail final ∧
      Linked final.kernel.nextReady (final.kernel.mlfqQueues 0) [3] none ∧
      Linked final.kernel.nextReady (final.kernel.mlfqQueues 3) [2] none := by
  have empty : Kernel.boot.MlfqEmpty := fun _ => ⟨rfl, rfl⟩
  have performs : Performs MlfqStep MlfqEvent.outcome ⟨Kernel.boot, []⟩ requeuedTail :=
    ⟨⟨by decide, ⟨rfl, rfl⟩, rfl⟩, ⟨by decide, ⟨rfl, rfl⟩, rfl⟩, ⟨trivial, ⟨8, rfl⟩, rfl⟩,
      ⟨by decide, rfl, rfl⟩, ⟨by decide, ⟨rfl, rfl⟩, rfl⟩, ⟨by decide, ⟨rfl, rfl⟩, rfl⟩,
      ⟨trivial, ⟨rfl, rfl⟩, rfl⟩, trivial⟩
  have run := Run.of_performs performs
  have held := (mlfq_queues_hold_waiting empty run).1
  exact ⟨_, run, (held 0).1, (held 3).1⟩

theorem mlfqLevel_eq (low : 0 ≤ priority) (high : priority ≤ 3) (same : Kernel.mlfqLevel priority = level) :
    priority = level.val := by
  subst same
  have notHigh : ¬ (mlfqLevels : Int) ≤ priority := not_le.mpr (Int.lt_add_one_of_le high)
  rw [Kernel.mlfqLevel, dif_neg notHigh, dif_neg (not_lt.mpr low)]
  exact (Int.toNat_of_nonneg low).symm

/-- As long as no priority changes while its process is queued, every process is on the
level of its priority, a dequeue removes its process, and a pick returns a process of
the lowest priority. -/
theorem mlfq_queues_follow_priority {start : Kernel} {trace : List MlfqEvent} {final : Schedule}
    (empty : start.MlfqEmpty) (run : Run MlfqStep ⟨start, []⟩ trace final)
    (inRange : ∀ entry ∈ waitingAfter trace, 0 ≤ (final.kernel.procs entry.pid).priority ∧
      (final.kernel.procs entry.pid).priority ≤ 3) :
    ∃ items : Fin mlfqLevels → List Nat,
      (∀ level, Linked final.kernel.nextReady (final.kernel.mlfqQueues level) (items level) none) ∧
      (∀ level, ∀ pid ∈ items level, (final.kernel.procs pid).priority = level.val) ∧
      (∀ pid fuel, (waitingAfter trace).length < fuel →
        ∃ after, final.kernel.dequeueTaskMlfq fuel pid = some after ∧
          ∀ level, Linked after.nextReady (after.mlfqQueues level) ((items level).filter (· ≠ pid)) none) ∧
      ∀ next after, final.kernel.pickNextTaskMlfq = some (next, after) → (∃ level, next ∈ items level) ∧
        ∀ level, ∀ pid ∈ items level, (final.kernel.procs next).priority ≤ (final.kernel.procs pid).priority := by
  have ordered := run_ordered empty run
  have leveled := ordered.leveled
  rw [show waitingAfter trace = final.waiting from (run_waiting run).symm] at inRange ⊢
  have placed : ∀ level, ∀ pid ∈ atLevel final.waiting level,
      Kernel.mlfqLevel (final.kernel.procs pid).priority = level :=
    fun level pid member => ordered.placed _ (mem_atLevel.mp member)
  have priority : ∀ level, ∀ pid ∈ atLevel final.waiting level, (final.kernel.procs pid).priority = level.val := by
    intro level pid member
    obtain ⟨low, high⟩ := inRange _ (mem_atLevel.mp member)
    exact mlfqLevel_eq low high (placed level pid member)
  refine ⟨atLevel final.waiting, leveled.lists.linked, priority, fun pid fuel enough => ?_,
    fun next after picked => ?_⟩
  · obtain ⟨after, done⟩ := ordered.dequeue_returns enough
    exact ⟨after, done, (leveled.dequeueTaskMlfq (fun level => placed level pid) done).2.lists.linked⟩
  · obtain ⟨level, vacant, first, -⟩ := leveled.pickNextTaskMlfq picked
    have listed := mem_of_head? first
    refine ⟨⟨level, listed⟩, fun other pid member => ?_⟩
    rw [priority level next listed, priority other pid member]
    have later : level ≤ other := by
      by_contra earlier
      rw [vacant other (not_le.mp earlier)] at member
      exact not_mem_nil member
    exact Int.ofNat_le.mpr later

theorem mlfq_queues_follow_priority_two :
    ∃ final, Run MlfqStep ⟨Kernel.boot, []⟩ [.setPriority 2 3, .enqueue 2 3, .enqueue 1 0] final ∧
      ∃ items, Linked final.kernel.nextReady (final.kernel.mlfqQueues 3) items none ∧
        ∀ pid ∈ items, (final.kernel.procs pid).priority = 3 := by
  have empty : Kernel.boot.MlfqEmpty := fun _ => ⟨rfl, rfl⟩
  have run := Run.of_performs (show Performs MlfqStep MlfqEvent.outcome ⟨Kernel.boot, []⟩
    [.setPriority 2 3, .enqueue 2 3, .enqueue 1 0] from
      ⟨⟨by decide, rfl, rfl⟩, ⟨by decide, ⟨rfl, rfl⟩, rfl⟩, ⟨by decide, ⟨rfl, rfl⟩, rfl⟩, trivial⟩)
  obtain ⟨items, linked, priority, -⟩ := mlfq_queues_follow_priority empty run (by decide +kernel)
  exact ⟨_, run, items 3, linked 3, priority 3⟩

/-- Boosted while it is queued, a process stays on the level of its former priority: a
dequeue does not find it, and a pick passes it over. -/
theorem boosted_process_passed_over :
    let queued := (Kernel.boot.setPriority 1 3).enqueueTaskMlfq 1
    let boosted := ((queued.setPriority 1 0).setPriority 2 1).enqueueTaskMlfq 2
    boosted.mlfqQueues 3 = some 1 ∧ (boosted.procs 1).priority = 0 ∧
      (boosted.dequeueTaskMlfq 8 1).map (·.mlfqQueues 3) = some (some 1) ∧
      boosted.pickNextTaskMlfq.map Prod.fst = some 2 := by
  decide +kernel

end Rucix.Sched
