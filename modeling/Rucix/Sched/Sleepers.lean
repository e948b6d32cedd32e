import Rucix.Data.Run
import Rucix.Sched.SafeRuns

namespace Rucix.Sched

open Rucix.Data List

/-! Sleepers over whole runs: a record of the calls says who is asleep and until when. -/

structure Sleeper where
  pid : Nat
  wake : Nat
deriving DecidableEq, Repr

inductive SleepEvent where
  | sleep (pid now ticks : Nat)
  | tick (now : Nat)
  | other
deriving DecidableEq, Repr

/-- A sleeper stays until the first tick at or after its time. -/
def SleepEvent.record (asleep : List Sleeper) : SleepEvent → List Sleeper
  | .sleep pid now ticks => asleep ++ [⟨pid, now + ticks⟩]
  | .tick now => asleep.filter (now < ·.wake)
  | .other => asleep

def asleepAfter (trace : List SleepEvent) : List Sleeper := trace.foldl SleepEvent.record []

def Kernel.Unlisted (kernel : Kernel) (pid : Nat) : Prop :=
  ∀ items, kernel.Wired items → ∀ place, pid ∉ items place

/-- `process_sleep` by a process that is in no list, a tick, or something else that leaves
the sleepers alone. -/
def SleepStep (kernel : Kernel) : SleepEvent → Kernel → Prop
  | .sleep pid now ticks, after =>
    pid = kernel.current ∧ now = kernel.globalTicks ∧ kernel.Unlisted pid ∧
      ∃ fuel, kernel.processSleep fuel ticks = some after
  | .tick now, after => now = kernel.globalTicks + 1 ∧ ∃ fuel, kernel.schedulerTick fuel = some after
  | .other, after => kernel.LeavesSleepers after

namespace Kernel

variable {kernel after : Kernel} {items : Place → List Nat} {asleep : List Sleeper}

theorem Consistent.unlisted (consistent : kernel.Consistent) (detached : kernel.Detached pid) :
    kernel.Unlisted pid := by
  intro items wired place
  obtain ⟨known, queued⟩ := consistent
  rw [(wired.lists.linked place).unique (queued.lists.linked place)]
  exact queued.detached pid detached place

structure Asleep (kernel : Kernel) (items : Place → List Nat) (asleep : List Sleeper) : Prop where
  queued : kernel.Queued items none
  sleepers : items .sleep = asleep.map Sleeper.pid
  times : ∀ sleeper ∈ asleep, (kernel.procs sleeper.pid).waitingOn = sleeper.wake

variable (recorded : kernel.Asleep items asleep)
include recorded

theorem Asleep.linked : Linked kernel.nextReady kernel.sleepQueue (asleep.map Sleeper.pid) none := by
  rw [← recorded.sleepers]
  exact recorded.queued.lists.linked .sleep

theorem Asleep.filter : ((items .sleep).filter fun pid => now < (kernel.procs pid).waitingOn) =
      (asleep.filter (now < ·.wake)).map Sleeper.pid := by
  rw [recorded.sleepers, filter_map]
  refine congrArg _ (filter_congr fun sleeper member => ?_)
  rw [Function.comp_apply, recorded.times sleeper member]

theorem Asleep.leaves (leaves : kernel.LeavesSleepers after) : ∃ newItems, after.Asleep newItems asleep := by
  obtain ⟨newItems, queued, same⟩ := leaves.queued items recorded.queued
  refine ⟨newItems, queued, same.trans recorded.sleepers, fun sleeper member => ?_⟩
  rw [leaves.kept.fields, recorded.times sleeper member]

theorem Asleep.sleep (unlisted : kernel.Unlisted kernel.current) (done : kernel.processSleep fuel ticks = some after) :
    ∃ newItems, after.Asleep newItems (asleep ++ [⟨kernel.current, kernel.globalTicks + ticks⟩]) := by
  have unlinked := unlisted items recorded.queued.toWired
  obtain ⟨final, newItems, queued, sleepers, -, time, others, returns⟩ :=
    recorded.queued.processSleep unlinked
  rw [returns, Option.ite_none_right_eq_some] at done
  cases done.2
  refine ⟨newItems, queued, ?_, fun sleeper member => ?_⟩
  · rw [sleepers, recorded.sleepers, map_append, map_singleton]
  · rcases mem_append.mp member with old | new
    · have apart : sleeper.pid ≠ kernel.current := by
        intro same
        apply unlinked .sleep
        rw [recorded.sleepers, ← same]
        exact mem_map_of_mem old
      rw [others _ apart, recorded.times sleeper old]
    · rw [mem_singleton.mp new, time]

theorem Asleep.tick (ticked : Ticked kernel woken after items newItems) :
    ∃ laterItems, after.Asleep laterItems (asleep.filter (kernel.globalTicks + 1 < ·.wake)) := by
  have remaining := ticked.sleepers.trans (recorded.filter)
  obtain ⟨laterItems, queued, same⟩ := ticked.leaves.queued newItems ticked.queued
  refine ⟨laterItems, queued, same.trans remaining, fun sleeper member => ?_⟩
  have listed : sleeper.pid ∈ newItems .sleep := by
    rw [remaining]
    exact mem_map_of_mem member
  rw [ticked.waitingOn _ listed, recorded.times sleeper (mem_filter.mp member).1]

theorem Asleep.step (step : SleepStep kernel event after) :
    ∃ newItems, after.Asleep newItems (event.record asleep) := by
  cases event with
  | sleep pid now ticks =>
    obtain ⟨rfl, rfl, unlisted, fuel, done⟩ := step
    exact recorded.sleep unlisted done
  | tick now =>
    obtain ⟨rfl, fuel, done⟩ := step
    obtain ⟨woken, final, newItems, ticked, -, returns⟩ := recorded.queued.schedulerTick
    rw [returns, Option.ite_none_right_eq_some] at done
    cases done.2
    exact recorded.tick ticked
  | other => exact recorded.leaves step

end Kernel

/-- The sleep queue holds the recorded sleepers in order.  The next tick returns; it leaves
those whose time is later in the queue, and when its loop ends all others are ready and in
their run queues. -/
theorem sleepers_run {start kernel : Kernel} {trace : List SleepEvent} (consistent : start.Consistent)
    (empty : start.sleepQueue = none) (run : Run SleepStep start trace kernel) :
    Linked kernel.nextReady kernel.sleepQueue ((asleepAfter trace).map Sleeper.pid) none ∧
    (∀ ticks, kernel.Unlisted kernel.current → ∃ fuel after, kernel.processSleep fuel ticks = some after) ∧
    ∃ fuel woken after, kernel.wakeExpired fuel = some woken ∧ kernel.schedulerTick fuel = some after ∧
      Linked woken.nextReady woken.sleepQueue
        (((asleepAfter trace).filter (kernel.globalTicks + 1 < ·.wake)).map Sleeper.pid) none ∧
      Linked after.nextReady after.sleepQueue
        (((asleepAfter trace).filter (kernel.globalTicks + 1 < ·.wake)).map Sleeper.pid) none ∧
      ∀ sleeper ∈ asleepAfter trace, sleeper.wake ≤ kernel.globalTicks + 1 →
        (woken.procs sleeper.pid).state = .ready ∧
        ∃ waiting, Linked woken.nextReady
          (woken.mlfqQueues (Kernel.mlfqLevel (woken.procs sleeper.pid).priority)) waiting none ∧
          sleeper.pid ∈ waiting := by
  have reached : ∃ items, kernel.Asleep items (asleepAfter trace) := by
    induction run with
    | nil =>
      obtain ⟨items, queued⟩ := consistent
      have head := queued.lists.head_eq .sleep
      rw [show start.listHead .sleep = none from empty, eq_comm, head?_eq_none_iff] at head
      exact ⟨items, queued, head, nofun⟩
    | snoc earlier last ih =>
      obtain ⟨items, recorded⟩ := ih
      rw [asleepAfter, foldl_append]
      exact recorded.step last
  obtain ⟨items, recorded⟩ := reached
  obtain ⟨woken, after, newItems, ticked, wakes, returns⟩ := recorded.queued.schedulerTick
  have remaining := ticked.sleepers.trans (recorded.filter)
  obtain ⟨laterItems, later⟩ := recorded.tick ticked
  refine ⟨recorded.linked, fun ticks unlisted => ?_, (items .sleep).length + 1, woken, after,
    (wakes _).trans (if_pos (Nat.lt_succ_self _)), (returns _).trans (if_pos (Nat.lt_succ_self _)), ?_,
    later.linked, fun sleeper member due => ?_⟩
  · obtain ⟨final, -, -, -, -, -, -, sleeps⟩ :=
      recorded.queued.processSleep (unlisted items recorded.queued.toWired)
    exact ⟨_, final, (sleeps _).trans (if_pos (Nat.le_refl _))⟩
  · rw [← remaining]
    exact ticked.queued.lists.linked .sleep
  · have listed : sleeper.pid ∈ items .sleep := by
      rw [recorded.sleepers]
      exact mem_map_of_mem member
    obtain ⟨ready, waiting⟩ := ticked.expired sleeper.pid listed (by rw [recorded.times sleeper member]; exact due)
    exact ⟨ready, _, ticked.queued.lists.linked (woken.levelOf sleeper.pid), waiting⟩

def twoProcesses : Kernel := (Kernel.boot.processCreate 0).getD Kernel.boot

def oneAsleep : Kernel := (twoProcesses.processSleep 1 1).getD twoProcesses

def twoAsleep : Kernel := (oneAsleep.processSleep 1 1).getD oneAsleep

/-- Both wake with the first tick. -/
theorem sleepers_run_two : Run SleepStep twoProcesses [.sleep 0 0 1, .sleep 1 0 1] twoAsleep ∧
    ∃ fuel woken, twoAsleep.wakeExpired fuel = some woken ∧
      (woken.procs 0).state = .ready ∧ (woken.procs 1).state = .ready := by
  have created : twoProcesses.Consistent :=
    Kernel.boot_consistent.addProcess (show Kernel.boot.processCreate 0 = some twoProcesses from rfl) rfl
  have first : twoProcesses.processSleep 1 1 = some oneAsleep := rfl
  have slept : oneAsleep.Consistent := created.processSleep (.inl rfl) first
  have run : Run SleepStep twoProcesses [.sleep 0 0 1, .sleep 1 0 1] twoAsleep :=
    (Run.nil.snoc ⟨rfl, rfl, created.unlisted (.inl rfl), 1, first⟩).snoc
      ⟨rfl, rfl, slept.unlisted (.inl rfl), 1, rfl⟩
  obtain ⟨-, -, fuel, woken, -, wakes, -, -, -, expired⟩ := sleepers_run created rfl run
  exact ⟨run, fuel, woken, wakes, (expired ⟨0, 1⟩ (by decide) (by decide)).1,
    (expired ⟨1, 1⟩ (by decide) (by decide)).1⟩

end Rucix.Sched
