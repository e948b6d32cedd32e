import Mathlib.Data.List.Infix
import Rucix.Sched.Membership

namespace Rucix.Sched

open Rucix.Data Function List

/-! Timed sleep: `process_sleep` and the wake-up loop of `scheduler_tick`.

The link of a sleeper that the loop has taken out serves its run queue from then on.
-/

namespace Kernel

variable {kernel after : Kernel} {pid fuel : Nat} {items : Place → List Nat} {before behind : List Nat}
    {prev : Option Nat}

theorem lastReady_eq_lastNode (pid : Nat) :
    kernel.lastReady fuel pid = lastNode kernel.nextReady fuel pid := by
  induction fuel generalizing pid with
  | zero => rfl
  | succ fuel ih =>
    simp only [lastReady, lastNode, nextReady]
    cases (kernel.procs pid).nextReady with
    | none => rfl
    | some next => exact ih next


/-- A new sleeper is linked behind the last one if the walk gets there. -/
theorem Wired.linkSleeper (wired : kernel.Wired items) (unlinked : ∀ place, pid ∉ items place) :
    ∃ after, after.Wired (update items .sleep (items .sleep ++ [pid])) ∧ SameTasks kernel after ∧
      Kept Process.waitingOn kernel after ∧
      ∀ fuel, kernel.linkSleeper fuel pid = if (items .sleep).length ≤ fuel then some after else none := by
  have head : kernel.sleepQueue = (items .sleep).head? := wired.lists.head_eq .sleep
  rcases eq_nil_or_concat (items .sleep) with shape | ⟨before, last, shape⟩
  · refine ⟨{ kernel with sleepQueue := some pid }.setNextReady pid none, wired.replace (by simp) ?_ rfl,
      ?_, ?_, fun fuel => ?_⟩
    · rw [setNextReady_nextReady, shape]
      change Lists (update kernel.nextReady pid none)
        ({ kernel with sleepQueue := some pid } : Kernel).listHead _
      rw [setSleepQueue_listHead]
      exact wired.lists.single unlinked
    · have same := SameTasks.setNextReady kernel pid none
      exact ⟨same.state, same.schedClass, rfl, rfl⟩
    · exact (Kept.setNextReady waitingOn_beside kernel pid none).of_procs rfl rfl
    · simp [Kernel.linkSleeper, head, shape]
  · rw [concat_eq_append] at shape
    obtain ⟨first, someFirst⟩ : ∃ first, (items .sleep).head? = some first :=
      ⟨_, head?_eq_some_head (by simp [shape])⟩
    rw [someFirst] at head
    have linked := wired.lists.linked .sleep
    rw [shape, show kernel.listHead .sleep = _ from head] at linked
    refine ⟨(kernel.setNextReady last (some pid)).setNextReady pid none, wired.replace (by simp) ?_ rfl,
      ?_, ?_, fun fuel => ?_⟩
    · have apart : pid ≠ last := by
        rintro rfl
        exact unlinked .sleep (by simp [shape])
      rw [setNextReady_nextReady, setNextReady_nextReady, update_comm apart.symm]
      exact wired.lists.pushBack shape unlinked
    · exact (SameTasks.setNextReady ..).trans (SameTasks.setNextReady ..)
    · exact (Kept.setNextReady waitingOn_beside ..).trans (.setNextReady waitingOn_beside ..)
    · simp only [Kernel.linkSleeper, head, lastReady_eq_lastNode, linked.lastNode_eq, shape,
        length_append, length_singleton, Nat.succ_le_iff]
      split <;> rfl

theorem Queued.linkSleeper (queued : kernel.Queued items (some pid)) (asleep : (kernel.procs pid).state = .sleeping) :
    ∃ after, after.Queued (update items .sleep (items .sleep ++ [pid])) none ∧
      Kept Process.waitingOn kernel after ∧
      ∀ fuel, kernel.linkSleeper fuel pid = if (items .sleep).length ≤ fuel then some after else none := by
  obtain ⟨after, wired, same, kept, links⟩ := queued.toWired.linkSleeper (queued.held pid rfl).2
  exact ⟨after, queued.put same wired (by simp [Detached, asleep]) (by simp [asleep]), kept, links⟩

theorem unlinkSleeper_kept {α : Type} (view : Process → α)
    (beside : ∀ proc nextReady, view { proc with nextReady } = view proc) (kernel : Kernel) (prev link : Option Nat) :
    Kept view kernel (kernel.unlinkSleeper prev link) := by
  cases prev with
  | none => exact (Kept.refl).of_procs rfl rfl
  | some before => exact .setProc (beside ..)

def levelOf (kernel : Kernel) (pid : Nat) : Place := .level (mlfqLevel (kernel.procs pid).priority)

/-- What the walk over the rest of the sleep queue, behind `before`, does. -/
structure Woken (kernel after : Kernel) (items newItems : Place → List Nat) (before rest : List Nat) : Prop where
  queued : after.Queued newItems none
  sleepers : newItems .sleep =
    before ++ rest.filter fun pid => kernel.globalTicks < (kernel.procs pid).waitingOn
  woken : ∀ pid ∈ rest, (kernel.procs pid).waitingOn ≤ kernel.globalTicks →
    (after.procs pid).state = .ready ∧ pid ∈ newItems (kernel.levelOf pid)
  waitingOn : ∀ pid, pid ∉ rest ∨ kernel.globalTicks < (kernel.procs pid).waitingOn →
    (after.procs pid).waitingOn = (kernel.procs pid).waitingOn
  state : ∀ pid ∉ rest, (after.procs pid).state = (kernel.procs pid).state
  appended : ∀ level, items (.level level) <+: newItems (.level level)
  levels : ∀ pid, after.levelOf pid = kernel.levelOf pid
  globalTicks : after.globalTicks = kernel.globalTicks

def rouse (kernel : Kernel) (pid : Nat) : Kernel :=
  kernel.setProc pid { kernel.procs pid with state := .ready, waitingOn := 0 }

def wake (kernel : Kernel) (prev : Option Nat) (pid : Nat) : Kernel :=
  ((kernel.unlinkSleeper prev (kernel.procs pid).nextReady).rouse pid).enqueueTaskMlfq pid

theorem wakeSleepers_wake (mlfq : ∀ pid, (kernel.procs pid).schedClass = .mlfq)
    (expired : (kernel.procs pid).waitingOn ≤ kernel.globalTicks) :
    wakeSleepers fuel (steps + 1) kernel prev (some pid) =
      wakeSleepers fuel steps (kernel.wake prev pid) prev (kernel.procs pid).nextReady := by
  have same := (unlinkSleeper_kept Process.schedClass (fun _ _ => rfl) kernel prev
    (kernel.procs pid).nextReady).fields pid
  simp only [wakeSleepers, if_pos expired]
  rw [enqueueProcess_eq (by simpa using same.trans (mlfq pid)) (by simp)]
  rfl

theorem wake_others (kernel : Kernel) (prev : Option Nat) (apart : other ≠ pid) :
    ((kernel.wake prev pid).procs other).waitingOn = (kernel.procs other).waitingOn ∧
      ((kernel.wake prev pid).procs other).state = (kernel.procs other).state := by
  have waiting := (unlinkSleeper_kept Process.waitingOn (fun _ _ => rfl) kernel prev
    (kernel.procs pid).nextReady).fields other
  have state := (unlinkSleeper_kept Process.state (fun _ _ => rfl) kernel prev
    (kernel.procs pid).nextReady).fields other
  constructor
  · rw [wake, (Kept.enqueueTaskMlfq waitingOn_beside _ pid).fields, rouse, setProc_procs, if_neg apart,
      waiting]
  · rw [wake, (enqueueTaskMlfq_requeued _ pid).state, if_neg apart, rouse, setProc_procs, if_neg apart, state]

theorem wake_state : ((kernel.wake prev pid).procs pid).state = .ready := by
  rw [wake, (enqueueTaskMlfq_requeued _ pid).state, if_pos rfl]

theorem wake_kept (kernel : Kernel) (prev : Option Nat) (pid : Nat) :
    Kept Process.priority kernel (kernel.wake prev pid) := by
  have unlinked := unlinkSleeper_kept Process.priority (fun _ _ => rfl) kernel prev (kernel.procs pid).nextReady
  refine (unlinked.trans ?_).trans (.enqueueTaskMlfq ⟨fun _ _ => rfl, fun _ _ => rfl⟩ (rouse _ pid) pid)
  exact .setProc rfl

theorem wake_levelOf (kernel : Kernel) (prev : Option Nat) :
    (kernel.wake prev pid).levelOf other = kernel.levelOf other :=
  congrArg (Place.level <| mlfqLevel ·) ((wake_kept kernel prev pid).fields other)

theorem Woken.wake (outside : pid ∉ behind) (expired : (kernel.procs pid).waitingOn ≤ kernel.globalTicks)
    (later : Woken (kernel.wake prev pid) after
      (update (update items .sleep (before ++ behind)) (kernel.levelOf pid)
        (items (kernel.levelOf pid) ++ [pid])) newItems before behind) :
    Woken kernel after items newItems before (pid :: behind) := by
  have ticks := (wake_kept kernel prev pid).globalTicks
  have apart : ∀ other ∈ behind, other ≠ pid := fun other member => ne_of_mem_of_not_mem member outside
  refine ⟨later.queued, ?_, fun other member due => ?_, fun other kept => ?_, fun other absent => ?_,
    fun level => ?_, fun other => (later.levels other).trans (wake_levelOf ..),
    later.globalTicks.trans ticks⟩
  · rw [later.sleepers, filter_cons_of_neg (by simpa using expired), ticks]
    refine congrArg (before ++ ·) (filter_congr fun other member => ?_)
    rw [(wake_others kernel prev (apart other member)).1]
  · rcases mem_cons.mp member with rfl | member
    · refine ⟨(later.state other outside).trans (wake_state ..), ?_⟩
      have listed : other ∈ update (update items .sleep (before ++ behind))
          (kernel.levelOf other) (items (kernel.levelOf other) ++ [other]) (kernel.levelOf other) := by simp
      exact (later.appended _).subset listed
    · have same := (wake_others kernel prev (apart other member)).1
      rw [← wake_levelOf kernel prev]
      exact later.woken other member (by rw [same, ticks]; exact due)
  · have different : other ≠ pid := by
      rintro rfl
      rcases kept with absent | asleep
      · exact absent mem_cons_self
      · exact absurd expired (Nat.not_le.mpr asleep)
    have same := (wake_others kernel prev different).1
    rw [← same]
    refine later.waitingOn other ?_
    rw [same, ticks]
    exact kept.imp (fun absent member => absent (mem_cons_of_mem _ member)) id
  · rw [mem_cons, not_or] at absent
    rw [later.state other absent.2, (wake_others kernel prev absent.1).2]
  · refine List.IsPrefix.trans ?_ (later.appended level)
    by_cases here : Place.level level = kernel.levelOf pid
    · rw [here, update_self]
      exact prefix_append ..
    · rw [update_of_ne here, update_of_ne (by simp)]

theorem Woken.pass (asleep : kernel.globalTicks < (kernel.procs pid).waitingOn)
    (later : Woken kernel after items newItems (before ++ [pid]) behind) (outside : pid ∉ behind) :
    Woken kernel after items newItems before (pid :: behind) := by
  refine ⟨later.queued, ?_, fun other member due => ?_, fun other kept => ?_, fun other absent => ?_,
    later.appended, later.levels, later.globalTicks⟩
  · rw [later.sleepers, filter_cons_of_pos (by simpa using asleep), append_assoc,
      singleton_append]
  · rcases mem_cons.mp member with rfl | member
    · exact absurd asleep (Nat.not_lt.mpr due)
    · exact later.woken other member due
  · refine later.waitingOn other (kept.imp (fun absent member => ?_) id)
    exact absent (mem_cons_of_mem _ member)
  · exact later.state other fun member => absent (mem_cons_of_mem _ member)

theorem SameQueues.accountTick : SameQueues kernel kernel.accountTick := by
  have same : SameQueues kernel { kernel with globalTicks := kernel.globalTicks + 1 } :=
    ⟨⟨fun _ => rfl, fun _ => rfl, rfl, rfl⟩, rfl, rfl, rfl⟩
  exact same.trans (SameQueues.setProc rfl rfl rfl)

/-- `scheduler_tick` up to the end of its wake-up loop. -/
def wakeExpired (fuel : Nat) (kernel : Kernel) : Option Kernel :=
  (kernel.accountTick.enforceCpuLimit fuel).bind fun kernel =>
    wakeSleepers fuel fuel kernel none kernel.sleepQueue

structure Ticked (kernel woken after : Kernel) (items newItems : Place → List Nat) : Prop where
  queued : woken.Queued newItems none
  sleepers : newItems .sleep =
    (items .sleep).filter fun pid => kernel.globalTicks + 1 < (kernel.procs pid).waitingOn
  expired : ∀ pid ∈ items .sleep, (kernel.procs pid).waitingOn ≤ kernel.globalTicks + 1 →
    (woken.procs pid).state = .ready ∧ pid ∈ newItems (woken.levelOf pid)
  waitingOn : ∀ pid ∈ newItems .sleep, (after.procs pid).waitingOn = (kernel.procs pid).waitingOn
  globalTicks : after.globalTicks = kernel.globalTicks + 1
  leaves : LeavesSleepers woken after

section

variable (queued : kernel.Queued items none)
include queued

/-- `process_schedule` never waits for a list. -/
theorem Queued.processSchedule_returns :
    ∃ after, ∀ fuel, kernel.processSchedule fuel = some after := by
  by_cases running : (kernel.procs kernel.current).state = .running
  · exact ⟨_, fun fuel => congrArg (Option.map Kernel.switchToNext) (queued.requeueCurrent_eq fuel running)⟩
  · exact ⟨_, fun fuel => congrArg (Option.map Kernel.switchToNext) (if_neg running)⟩

theorem Queued.processSleep (unlinked : ∀ place, kernel.current ∉ items place)
    :
    ∃ after newItems, after.Queued newItems none ∧ newItems .sleep = items .sleep ++ [kernel.current] ∧
      after.globalTicks = kernel.globalTicks ∧
      (after.procs kernel.current).waitingOn = kernel.globalTicks + ticks ∧
      (∀ pid ≠ kernel.current, (after.procs pid).waitingOn = (kernel.procs pid).waitingOn) ∧
      ∀ fuel, kernel.processSleep fuel ticks = if (items .sleep).length ≤ fuel then some after else none := by
  let marked := kernel.setProc kernel.current
    { kernel.procs kernel.current with state := .sleeping, waitingOn := kernel.globalTicks + ticks }
  have held : marked.Queued items (some kernel.current) :=
    (queued.hold queued.current_lt unlinked).setProc_held (queued.classes _)
  obtain ⟨linked, asleep, kept, links⟩ := held.linkSleeper (by simp [marked])
  obtain ⟨after, returns⟩ := asleep.processSchedule_returns
  have leaves := LeavesSleepers.processSchedule (returns 0)
  obtain ⟨newItems, later, sleepers⟩ := leaves.queued _ asleep
  have waiting : ∀ pid, (after.procs pid).waitingOn = (marked.procs pid).waitingOn := (kept.trans leaves.kept).fields
  refine ⟨after, newItems, later, by simpa using sleepers, (kept.trans leaves.kept).globalTicks, ?_, ?_, ?_⟩
  · rw [waiting]
    simp [marked]
  · intro pid apart
    rw [waiting]
    simp [marked, apart]
  · intro fuel
    change (marked.linkSleeper fuel kernel.current).bind (Kernel.processSchedule fuel) = _
    rw [links]
    split
    · exact returns fuel
    · rfl

theorem Queued.unlinkSleeper {prev : Option Nat} (shape : items .sleep = before ++ pid :: behind)
    (prevLast : prev = before.getLast?) :
    (kernel.unlinkSleeper prev (kernel.procs pid).nextReady).Queued
      (update items .sleep (before ++ behind)) (some pid) := by
  have listed : pid ∈ items .sleep := by simp [shape]
  have removed : ∀ place other, other ∈ update items .sleep (before ++ behind) place ↔
      other ∈ items place ∧ other ≠ pid := fun place other => queued.lists.mem_remove shape
  rcases eq_nil_or_concat before with rfl | ⟨early, last, rfl⟩
  · cases prevLast
    refine queued.take ⟨fun _ => rfl, fun _ => rfl, rfl, rfl⟩ ?_ listed removed
    refine queued.toWired.replace (by simp) ?_ rfl
    change Lists kernel.nextReady
      ({ kernel with sleepQueue := (kernel.procs pid).nextReady } : Kernel).listHead _
    rw [setSleepQueue_listHead, ← update_eq_self pid kernel.nextReady]
    exact queued.lists.pop shape _
  · rw [concat_eq_append] at prevLast shape removed ⊢
    rw [getLast?_append] at prevLast
    cases prevLast
    refine queued.take (SameTasks.setNextReady ..) ?_ listed removed
    refine queued.toWired.replace (by simp) ?_ rfl
    change Lists (kernel.setNextReady last (kernel.procs pid).nextReady).nextReady kernel.listHead _
    rw [setNextReady_nextReady]
    rw [append_assoc] at shape ⊢
    exact queued.lists.unlink shape

theorem Queued.wake (shape : items .sleep = before ++ pid :: behind)
    (prevLast : prev = before.getLast?) : (kernel.wake prev pid).Queued
      (update (update items .sleep (before ++ behind)) (kernel.levelOf pid)
        (items (kernel.levelOf pid) ++ [pid])) none := by
  have held := queued.unlinkSleeper shape prevLast
  have priority := (unlinkSleeper_kept Process.priority (fun _ _ => rfl) kernel prev
    (kernel.procs pid).nextReady).fields pid
  have roused : ((kernel.unlinkSleeper prev (kernel.procs pid).nextReady).rouse pid).Queued
      (update items .sleep (before ++ behind)) (some pid) :=
    held.setProc_held (held.classes pid)
  simpa [Kernel.wake, rouse, levelOf, priority] using roused.enqueueTaskMlfq

theorem Queued.wakeSleepers (shape : items .sleep = before ++ rest)
    (prevLast : prev = before.getLast?) (pointerHead : pointer = rest.head?) :
    ∃ after newItems, Woken kernel after items newItems before rest ∧
      ∀ fuel steps, Kernel.wakeSleepers fuel steps kernel prev pointer =
        if rest.length < steps then some after else none := by
  induction rest generalizing kernel items before prev pointer with
  | nil =>
    cases pointerHead
    refine ⟨kernel, items, ⟨queued, by simpa using shape, nofun, fun _ _ => rfl, fun _ _ => rfl,
      fun _ => prefix_rfl, fun _ => rfl, rfl⟩, fun fuel steps => ?_⟩
    cases steps with
    | zero => rfl
    | succ steps => rfl
  | cons pid behind ih =>
    cases pointerHead
    have link : (kernel.procs pid).nextReady = behind.head? := queued.lists.next_eq shape
    have outside : pid ∉ behind := by
      have nodup := queued.lists.nodup .sleep
      rw [shape, nodup_append, nodup_cons] at nodup
      exact nodup.2.1.1
    by_cases expired : (kernel.procs pid).waitingOn ≤ kernel.globalTicks
    · obtain ⟨after, newItems, later, walks⟩ :=
        ih (queued.wake shape prevLast) (by simp [levelOf]) prevLast link
      refine ⟨after, newItems, later.wake outside expired, fun fuel steps => ?_⟩
      cases steps with
      | zero => rfl
      | succ steps =>
        rw [head?_cons, wakeSleepers_wake queued.classes expired, walks]
        simp
    · have passed : items .sleep = (before ++ [pid]) ++ behind := by
        rw [shape, append_assoc, singleton_append]
      obtain ⟨after, newItems, later, walks⟩ :=
        ih queued passed (show some pid = (before ++ [pid]).getLast? by simp) link
      refine ⟨after, newItems, later.pass (Nat.lt_of_not_le expired) outside, fun fuel steps => ?_⟩
      cases steps with
      | zero => rfl
      | succ steps =>
        simp only [head?_cons, Kernel.wakeSleepers, if_neg expired, walks, length_cons,
          Nat.add_lt_add_iff_right]

theorem Queued.wakeAll :
    ∃ after newItems, Woken kernel after items newItems [] (items .sleep) ∧
      ∀ fuel, Kernel.wakeSleepers fuel fuel kernel none kernel.sleepQueue =
        if (items .sleep).length < fuel then some after else none := by
  have head : kernel.sleepQueue = (items .sleep).head? := queued.lists.head_eq .sleep
  obtain ⟨after, newItems, woken, walks⟩ := queued.wakeSleepers (nil_append _).symm getLast?_nil.symm head
  exact ⟨after, newItems, woken, fun fuel => walks fuel fuel⟩

theorem Queued.signalTask_returns :
    ∃ after, ∀ fuel, kernel.signalTask fuel sig pid = some after := by
  simp only [signalTask]
  split
  · exact ⟨_, fun fuel => enqueueProcess_eq (by simpa [setState] using queued.classes pid) (by simp [setState])⟩
  · exact ⟨_, fun _ => rfl⟩

theorem Queued.signalEach_returns :
    ∃ after, ∀ fuel, signalEach fuel sig kernel targets = some after := by
  induction targets generalizing kernel items with
  | nil => exact ⟨kernel, fun _ => rfl⟩
  | cons pid rest ih =>
    obtain ⟨middle, first⟩ := queued.signalTask_returns
    obtain ⟨newItems, queued, -⟩ := (LeavesSleepers.signalTask (first 0)).queued items queued
    obtain ⟨after, others⟩ := ih queued
    exact ⟨after, fun fuel => Option.bind_eq_some_iff.mpr ⟨middle, first fuel, others fuel⟩⟩

theorem Queued.sysKill_returns :
    ∃ result, ∀ fuel, kernel.sysKill fuel target sig = some result := by
  obtain ⟨status, same⟩ := kernel.sysKill_eq target sig
  obtain ⟨after, signalled⟩ := queued.signalEach_returns
  exact ⟨(status, after), fun fuel => by rw [same, signalled]; rfl⟩

theorem Queued.enforceCpuLimit_returns :
    ∃ after, ∀ fuel, kernel.enforceCpuLimit fuel = some after := by
  simp only [enforceCpuLimit]
  split
  · obtain ⟨⟨status, after⟩, killed⟩ := queued.sysKill_returns
    exact ⟨after, fun fuel => by rw [killed fuel]; rfl⟩
  · exact ⟨kernel, fun _ => rfl⟩

theorem Queued.schedulerTick :
    ∃ woken after newItems, Ticked kernel woken after items newItems ∧
      (∀ fuel, kernel.wakeExpired fuel = if (items .sleep).length < fuel then some woken else none) ∧
      ∀ fuel, kernel.schedulerTick fuel = if (items .sleep).length < fuel then some after else none := by
  have counted := queued.congr (SameQueues.accountTick)
  obtain ⟨signalled, limits⟩ := counted.enforceCpuLimit_returns
  have limited := LeavesSleepers.enforceCpuLimit (limits 0)
  obtain ⟨limitedItems, limitedQueued, same⟩ := limited.queued items counted
  have waiting : ∀ pid, (signalled.procs pid).waitingOn = (kernel.procs pid).waitingOn := by
    intro pid
    rw [limited.kept.fields, accountTick, setProc_procs]
    split
    · rename_i here
      rw [here]
    · rfl
  have ticks : signalled.globalTicks = kernel.globalTicks + 1 := limited.kept.globalTicks
  obtain ⟨woken, newItems, effect, walks⟩ := limitedQueued.wakeAll
  rw [same] at effect walks
  obtain ⟨after, ends, leaves⟩ : ∃ after, (∀ fuel,
      (if (woken.procs woken.current).timeSlice ≤ 0 ∧ (woken.procs woken.current).policy ≠ .fifo then
        woken.processSchedule fuel else some woken) = some after) ∧ LeavesSleepers woken after := by
    split
    · obtain ⟨after, returns⟩ := effect.queued.processSchedule_returns
      exact ⟨after, returns, .processSchedule (returns 0)⟩
    · exact ⟨woken, fun _ => rfl, .refl⟩
  have sleepers : newItems .sleep =
      (items .sleep).filter fun pid => kernel.globalTicks + 1 < (kernel.procs pid).waitingOn := by
    rw [effect.sleepers, ticks]
    exact filter_congr fun pid _ => by rw [waiting]
  refine ⟨woken, after, newItems, ⟨effect.queued, sleepers, fun pid member expired => ?_, fun pid member => ?_,
    ?_, leaves⟩, fun fuel => ?_, fun fuel => ?_⟩
  · rw [effect.levels]
    exact effect.woken pid member (by rw [waiting, ticks]; exact expired)
  · rw [sleepers, mem_filter] at member
    have asleep := of_decide_eq_true member.2
    rw [leaves.kept.fields, effect.waitingOn pid (.inr (by rw [waiting, ticks]; exact asleep)), waiting]
  · rw [leaves.kept.globalTicks, effect.globalTicks, ticks]
  · rw [wakeExpired, limits]
    exact walks fuel
  · rw [Kernel.schedulerTick, limits]
    change (Kernel.wakeSleepers fuel fuel signalled none signalled.sleepQueue).bind _ = _
    rw [walks]
    split
    · exact ends fuel
    · rfl

end

theorem Consistent.processSleep (consistent : kernel.Consistent) (detached : kernel.Detached kernel.current)
    (done : kernel.processSleep fuel ticks = some after) : after.Consistent := by
  obtain ⟨items, queued⟩ := consistent
  obtain ⟨final, newItems, later, -, -, -, -, sleeps⟩ :=
    queued.processSleep (queued.detached _ detached)
  rw [sleeps, Option.ite_none_right_eq_some] at done
  cases done.2
  exact ⟨newItems, later⟩

theorem Consistent.schedulerTick (consistent : kernel.Consistent) (done : kernel.schedulerTick fuel = some after) :
    after.Consistent := by
  obtain ⟨items, queued⟩ := consistent
  obtain ⟨woken, final, newItems, ticked, -, returns⟩ := queued.schedulerTick
  rw [returns, Option.ite_none_right_eq_some] at done
  cases done.2
  obtain ⟨laterItems, later, -⟩ := ticked.leaves.queued newItems ticked.queued
  exact ⟨laterItems, later⟩

end Kernel

end Rucix.Sched
