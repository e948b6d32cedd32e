import Rucix.Data.Parking
import Rucix.Data.Run

namespace Rucix.Sync

open Rucix.Data Function TwoTasks

/-! Recursive mutexes: `mutex_lock` and `mutex_unlock` of `kernel/sync/waitqueue.c`.

The steps are the sections under `mutex->lock` and `mutex->wait.lock`, each with the
way it ended.
-/

structure Mutex (Process : Type*) where
  owner : Option Process
  recurseCount : Int
  wait : List Process

/-- How the section of `mutex_lock` ends: the first two return. -/
inductive LockResult where
  | acquired
  | relocked
  | refused
deriving DecidableEq, Repr

/-- How the section of `mutex_unlock` ends: by the owner, or without effect. -/
inductive UnlockResult where
  | released
  | kept
  | ignored
deriving DecidableEq, Repr

/-- Where a process is: in the loop of `mutex_lock` before its section, behind
a section that found another owner, asleep; or in `mutex_unlock` before
`wake_up`. -/
inductive MutexStage where
  | outside
  | locking
  | leaving
  | asleep
  | waking
deriving DecidableEq, Repr

structure MutexState (Process : Type*) extends Mutex Process where
  priority : Process → Int
  stage : Process → MutexStage

inductive MutexEvent (Process : Type*) where
  | mutexLock (me : Process)
  | lock (me : Process) (result : LockResult)
  | sleepOn (me : Process)
  | unlock (me : Process) (result : UnlockResult)
  | wakeUp (me : Process)
deriving DecidableEq, Repr

variable {Process : Type*}

def mutexInit : Mutex Process where
  owner := none
  recurseCount := 0
  wait := []

def MutexState.initial (priority : Process → Int) : MutexState Process where
  toMutex := mutexInit
  priority := priority
  stage := fun _ => .outside

variable [DecidableEq Process]

namespace Mutex

/-- One turn of the loop of `mutex_lock`. -/
def lock (mutex : Mutex Process) (me : Process) : Mutex Process × LockResult :=
  match mutex.owner with
  | none => ({ mutex with owner := some me, recurseCount := 1 }, .acquired)
  | some owner =>
    if owner = me then ({ mutex with recurseCount := mutex.recurseCount + 1 }, .relocked)
    else (mutex, .refused)

/-- `process_set_priority(mutex->owner->pid, me->priority)` -/
def boostOwner (mutex : Mutex Process) (priority : Process → Int) (me : Process) : Process → Int :=
  match mutex.owner with
  | none => priority
  | some owner =>
    if priority me < priority owner then update priority owner (priority me) else priority

def unlock (mutex : Mutex Process) (me : Process) : Mutex Process × UnlockResult :=
  if mutex.owner = some me then
    let mutex := { mutex with recurseCount := mutex.recurseCount - 1 }
    if mutex.recurseCount = 0 then ({ mutex with owner := none }, .released) else (mutex, .kept)
  else (mutex, .ignored)

variable {mutex : Mutex Process} {me : Process}

theorem lock_free (free : mutex.owner = none) :
    mutex.lock me = ({ mutex with owner := some me, recurseCount := 1 }, .acquired) := by
  simp [lock, free]

theorem lock_again (owned : mutex.owner = some me) :
    mutex.lock me = ({ mutex with recurseCount := mutex.recurseCount + 1 }, .relocked) := by
  simp [lock, owned]

theorem lock_other {owner : Process} (owned : mutex.owner = some owner) (different : owner ≠ me) :
    mutex.lock me = (mutex, .refused) := by
  simp [lock, owned, different]

theorem unlock_ignored (other : mutex.owner ≠ some me) : mutex.unlock me = (mutex, .ignored) :=
  if_neg other

theorem unlock_last (owned : mutex.owner = some me) (last : mutex.recurseCount = 1) :
    mutex.unlock me = ({ mutex with owner := none, recurseCount := 0 }, .released) := by
  simp [unlock, owned, last]

theorem unlock_inner (owned : mutex.owner = some me) (inner : mutex.recurseCount ≠ 1) :
    mutex.unlock me = ({ mutex with recurseCount := mutex.recurseCount - 1 }, .kept) := by
  have more : mutex.recurseCount - 1 ≠ 0 := by omega
  simp [unlock, owned, more]

end Mutex

namespace MutexState

def goto (state : MutexState Process) (me : Process) (stage : MutexStage) : MutexState Process :=
  { state with stage := update state.stage me stage }

def afterLock : LockResult → MutexStage
  | .acquired | .relocked => .outside
  | .refused => .leaving

def afterUnlock : UnlockResult → MutexStage
  | .released => .waking
  | .kept | .ignored => .outside

/-- A call that found another owner raises its priority before it leaves. -/
def lock (state : MutexState Process) (me : Process) : MutexState Process :=
  let (mutex, result) := state.toMutex.lock me
  { state with toMutex := mutex, priority := state.boostOwner state.priority me }.goto me (afterLock result)

/-- `sleep_on(&mutex->wait)` -/
def sleepOn (state : MutexState Process) (me : Process) : MutexState Process :=
  { state with wait := state.wait ++ [me] }.goto me .asleep

def unlock (state : MutexState Process) (me : Process) : MutexState Process :=
  let (mutex, result) := state.toMutex.unlock me
  { state with toMutex := mutex }.goto me (afterUnlock result)

/-- `wake_up(&mutex->wait)` at the end of `mutex_unlock`. -/
def wakeUp (state : MutexState Process) (me : Process) : MutexState Process :=
  { state with
    wait := state.wait.drop 1
    stage := awaken (fun _ => .locking) (state.wait.take 1) state.stage }.goto me .outside

end MutexState

namespace MutexEvent

def Enabled (state : MutexState Process) : MutexEvent Process → Prop
  | .mutexLock me => state.stage me = .outside
  | .lock me result => state.stage me = .locking ∧ (state.toMutex.lock me).2 = result
  | .sleepOn me => state.stage me = .leaving
  | .unlock me result => state.stage me = .outside ∧ (state.toMutex.unlock me).2 = result
  | .wakeUp me => state.stage me = .waking

def perform (state : MutexState Process) : MutexEvent Process → MutexState Process
  | .mutexLock me => state.goto me .locking
  | .lock me _ => state.lock me
  | .sleepOn me => state.sleepOn me
  | .unlock me _ => state.unlock me
  | .wakeUp me => state.wakeUp me

def Completes (me : Process) (event : MutexEvent Process) : Bool :=
  event = .lock me .acquired ∨ event = .lock me .relocked

def Unlocks (me : Process) (event : MutexEvent Process) : Bool :=
  event = .unlock me .released ∨ event = .unlock me .kept

end MutexEvent

def MutexStep (before : MutexState Process) (event : MutexEvent Process) (after : MutexState Process) :
    Prop :=
  event.Enabled before ∧ after = event.perform before

def completedLocks (me : Process) (trace : List (MutexEvent Process)) : Nat :=
  trace.countP (MutexEvent.Completes me)

def effectiveUnlocks (me : Process) (trace : List (MutexEvent Process)) : Nat :=
  trace.countP (MutexEvent.Unlocks me)

/-- The events from the one on by which a process last became the owner. -/
def sinceOwner (me : Process) (trace : List (MutexEvent Process)) : List (MutexEvent Process) :=
  trace.foldl (fun since event => if event = .lock me .acquired then [event] else since ++ [event]) []

def balance (me : Process) (trace : List (MutexEvent Process)) : Int :=
  completedLocks me trace - effectiveUnlocks me trace

def MutexEvent.change (me : Process) (event : MutexEvent Process) : Int :=
  (if event.Completes me then 1 else 0) - if event.Unlocks me then 1 else 0

variable {state after : MutexState Process} {me other : Process} {trace : List (MutexEvent Process)}
  {event : MutexEvent Process} {priority : Process → Int}

theorem balance_snoc : balance me (trace ++ [event]) = balance me trace + event.change me := by
  simp only [balance, completedLocks, effectiveUnlocks, MutexEvent.change, List.countP_append,
    List.countP_singleton]
  split <;> split <;> push_cast <;> omega

theorem change_lock :
    (MutexEvent.lock other result).change me = if other = me ∧ result ≠ .refused then 1 else 0 := by
  cases result <;> simp [MutexEvent.change, MutexEvent.Completes, MutexEvent.Unlocks]

theorem change_unlock :
    (MutexEvent.unlock other result).change me = if other = me ∧ result ≠ .ignored then -1 else 0 := by
  cases result <;>
    by_cases same : other = me <;> simp [MutexEvent.change, MutexEvent.Completes, MutexEvent.Unlocks, same]

theorem sinceOwner_snoc : sinceOwner me (trace ++ [event]) =
    if event = .lock me .acquired then [event] else sinceOwner me trace ++ [event] := by
  simp [sinceOwner]

/-- Becoming the owner from a balance of zero, a process keeps the same balance
since then as over the whole run. -/
theorem balance_sinceOwner_snoc (same : balance me (sinceOwner me trace) = balance me trace)
    (fresh : event = .lock me .acquired → balance me trace = 0) :
    balance me (sinceOwner me (trace ++ [event])) = balance me (trace ++ [event]) := by
  rw [sinceOwner_snoc]
  split
  · rename_i acquired
    have empty : balance me [event] = event.change me := by
      rw [← List.nil_append [event], balance_snoc]
      simp [balance, completedLocks, effectiveUnlocks]
    rw [balance_snoc, fresh acquired, empty, Int.zero_add]
  · rw [balance_snoc, balance_snoc, same]

namespace MutexState

structure Recorded (state : MutexState Process) (trace : List (MutexEvent Process)) : Prop where
  same : ∀ me, balance me (sinceOwner me trace) = balance me trace
  owned : ∀ me, state.owner = some me → balance me trace = state.recurseCount
  unowned : ∀ me, state.owner ≠ some me → balance me trace = 0
  positive : ∀ me, state.owner = some me → 0 < state.recurseCount
  free : state.owner = none → state.recurseCount = 0

section

variable (recorded : state.Recorded trace)
include recorded

theorem Recorded.balance_eq :
    balance me trace = if state.owner = some me then state.recurseCount else 0 := by
  split
  · exact recorded.owned me ‹_›
  · exact recorded.unowned me ‹_›

theorem Recorded.snoc (fresh : ∀ me, event = .lock me .acquired → state.owner = none)
    (balanced : ∀ me, balance me trace + event.change me =
      if after.owner = some me then after.recurseCount else 0)
    (counted : if after.owner = none then after.recurseCount = 0 else 0 < after.recurseCount) :
    after.Recorded (trace ++ [event]) := by
  refine ⟨fun me => balance_sinceOwner_snoc (recorded.same me) fun acquired => ?_, fun me isOwner => ?_,
    fun me notOwner => ?_, fun me isOwner => ?_, fun free => ?_⟩
  · exact recorded.unowned me (by simp [fresh me acquired])
  · rw [balance_snoc, balanced, if_pos isOwner]
  · rw [balance_snoc, balanced, if_neg notOwner]
  · simpa [isOwner] using counted
  · simpa [free] using counted

theorem Recorded.counted : if state.owner = none then state.recurseCount = 0 else 0 < state.recurseCount := by
  cases found : state.owner with
  | none => exact recorded.free found
  | some me => exact recorded.positive me found

theorem Recorded.keep (owner : after.owner = state.owner) (count : after.recurseCount = state.recurseCount)
    (quiet : ∀ me, event.change me = 0) (other : ∀ me, event ≠ .lock me .acquired) :
    after.Recorded (trace ++ [event]) := by
  refine recorded.snoc (fun me acquired => absurd acquired (other me)) (fun me => ?_) ?_
  · rw [owner, count, quiet, Int.add_zero, recorded.balance_eq]
  · rw [owner, count]
    exact recorded.counted

theorem Recorded.lock (ended : (state.toMutex.lock me).2 = result) :
    (state.lock me).Recorded (trace ++ [.lock me result]) := by
  have counted := recorded.counted
  cases found : state.owner with
  | none =>
    have locked : state.toMutex.lock me = _ := Mutex.lock_free found
    subst ended
    refine recorded.snoc (fun _ _ => found) (fun other => ?_) (by simp [MutexState.lock, locked, goto])
    rw [recorded.balance_eq, found, change_lock]
    simp [MutexState.lock, locked, goto]
  | some owner =>
    by_cases mine : owner = me
    · subst mine
      have locked := Mutex.lock_again found
      rw [locked] at ended
      subst ended
      refine recorded.snoc (fun _ acquired => by cases acquired) (fun other => ?_) ?_
      · simp only [recorded.balance_eq, change_lock, MutexState.lock, locked, goto, found]
        by_cases same : owner = other <;> simp [same]
      · rw [found] at counted
        simp only [MutexState.lock, locked, goto, found]
        simp at counted ⊢
        omega
    · have locked := Mutex.lock_other found mine
      rw [locked] at ended
      subst ended
      refine recorded.keep ?_ ?_ (fun other => by simp [change_lock]) (fun _ => by simp)
      · simp [MutexState.lock, locked, goto]
      · simp [MutexState.lock, locked, goto]

theorem Recorded.unlock (ended : (state.toMutex.unlock me).2 = result) :
    (state.unlock me).Recorded (trace ++ [.unlock me result]) := by
  by_cases mine : state.owner = some me
  · have positive := recorded.positive me mine
    by_cases last : state.recurseCount = 1
    · have unlocked := Mutex.unlock_last mine last
      subst ended
      refine recorded.snoc (fun _ acquired => by cases acquired) (fun other => ?_)
        (by simp [MutexState.unlock, unlocked, goto])
      simp only [recorded.balance_eq, mine, last, change_unlock, MutexState.unlock, unlocked, goto]
      by_cases same : me = other <;> simp [same]
    · have unlocked := Mutex.unlock_inner mine last
      subst ended
      refine recorded.snoc (fun _ acquired => by cases acquired) (fun other => ?_) ?_
      · simp only [recorded.balance_eq, change_unlock, MutexState.unlock, unlocked, goto, mine]
        by_cases same : me = other <;> simp [same, Int.sub_eq_add_neg]
      · simp only [MutexState.unlock, unlocked, goto, mine]
        simp
        omega
  · have unlocked := Mutex.unlock_ignored mine
    rw [unlocked] at ended
    subst ended
    refine recorded.keep ?_ ?_ (fun other => by simp [change_unlock]) (fun _ => by simp)
    · simp [MutexState.unlock, unlocked, goto]
    · simp [MutexState.unlock, unlocked, goto]

theorem Recorded.step (step : MutexStep state event after) : after.Recorded (trace ++ [event]) := by
  obtain ⟨enabled, rfl⟩ := step
  cases event with
  | lock me result => exact recorded.lock enabled.2
  | unlock me result => exact recorded.unlock enabled.2
  | mutexLock me | sleepOn me | wakeUp me =>
    exact recorded.keep rfl rfl
      (fun _ => by simp [MutexEvent.change, MutexEvent.Completes, MutexEvent.Unlocks]) (fun _ => by simp)

end

end MutexState

end Rucix.Sync
