import Rucix.Sched.WaitQueues

namespace Rucix.Sched

open Rucix.Data Function List

/-! Runs of the wait queues.  Between `sleep_on` and the wake-up a process is
blocked and its entry is linked. -/

namespace Kernel

variable {kernel after : Kernel} {pid fuel queue entry : Nat} {items : Nat → List Nat}

/-- The current process goes on, has ended, or is inside `sleep_on` and has not
called `process_schedule` yet. -/
def Active (kernel : Kernel) : Prop :=
  (kernel.procs kernel.current).state = .running ∨
    (kernel.procs kernel.current).state = .terminated ∨
    ((∃ queue entry, kernel.frames kernel.current = some (.sleepOn queue entry false)) ∧
      ((kernel.procs kernel.current).state = .blocked ∨ (kernel.procs kernel.current).state = .ready))

structure Sound (kernel : Kernel) : Prop where
  consistent : kernel.Consistent
  waits : ∃ items, kernel.Waits items
  active : kernel.Active

theorem Active.congr (active : kernel.Active) (current : after.current = kernel.current)
    (state : (after.procs kernel.current).state = (kernel.procs kernel.current).state)
    (frame : after.frames kernel.current = kernel.frames kernel.current) : after.Active := by
  rw [Active, current, state, frame]
  exact active

theorem Active.running (active : kernel.Active) (executing : kernel.Executing) :
    (kernel.procs kernel.current).state = .running := by
  rcases active with running | terminated | ⟨⟨queue, entry, frame⟩, -⟩
  · exact running
  · exact absurd terminated executing.2
  · cases executing.1.symm.trans frame

theorem Active.not_blocked (active : kernel.Active)
    (frame : kernel.frames kernel.current = some (.sleepOn queue entry true)) :
    (kernel.procs kernel.current).state = .running ∨
      (kernel.procs kernel.current).state = .terminated := by
  rcases active with running | terminated | ⟨⟨_, _, other⟩, -⟩
  · exact .inl running
  · exact .inr terminated
  · cases frame.symm.trans other

theorem Sound.wake (sound : kernel.Sound) (waits : kernel.Waits items) (shape : items queue = entry :: rest)
    (done : (kernel.popEntry queue entry).makeReady fuel (kernel.entryTask entry) = some after) :
    after.Sound ∧ after.Waits (update items queue rest) := by
  have listed : entry ∈ items queue := by simp [shape]
  have blocked := waits.blocked queue entry listed
  have popped := SameQueues.popEntry kernel queue entry
  have consistent := sound.consistent.congr popped
  have requeued := makeReady_requeued (consistent.classes _) done
  have woken := waits.wake shape requeued
  refine ⟨⟨consistent.makeReady (popped.detached.mpr (.inr blocked)) done, ⟨_, woken⟩, ?_⟩, woken⟩
  have current : after.current = kernel.current := requeued.current
  have frames : after.frames = kernel.frames := by rw [requeued.sync]; rfl
  by_cases isTask : kernel.current = kernel.entryTask entry
  · rw [← isTask] at blocked
    refine .inr (.inr ⟨?_, .inr ?_⟩)
    · rw [current, frames]
      rcases sound.active with running | terminated | ⟨frame, -⟩
      · cases blocked.symm.trans running
      · cases blocked.symm.trans terminated
      · exact frame
    · rw [current, requeued.state, if_pos isTask]
  · exact sound.active.congr current ((requeued.state _).trans (if_neg isTask)) (by rw [frames])

theorem Waits.head_eq (waits : kernel.Waits items) (queue : Nat) :
    (kernel.waitQueues queue).head = (items queue).head? :=
  waits.lists.head_eq queue

theorem Sound.wakeUp (sound : kernel.Sound) (done : kernel.wakeUp fuel queue = some after) : after.Sound := by
  obtain ⟨items, waits⟩ := sound.waits
  have head := waits.head_eq queue
  cases shape : items queue with
  | nil =>
    simp only [Kernel.wakeUp, head, shape] at done
    cases done
    exact sound
  | cons entry rest =>
    simp only [Kernel.wakeUp, head, shape] at done
    exact (sound.wake waits shape done).1

theorem Sound.wakeUpAll (sound : kernel.Sound) (done : Kernel.wakeUpAll fuel queue steps kernel = some after) :
    after.Sound := by
  induction steps generalizing kernel with
  | zero => cases done
  | succ steps ih =>
    obtain ⟨items, waits⟩ := sound.waits
    have head := waits.head_eq queue
    cases shape : items queue with
    | nil =>
      simp only [Kernel.wakeUpAll, head, shape] at done
      cases done
      exact sound
    | cons entry rest =>
      simp only [Kernel.wakeUpAll, head, shape] at done
      obtain ⟨middle, woken, done⟩ := Option.bind_eq_some_iff.mp done
      exact ih (sound.wake waits shape woken).1 done

/-- Each pass takes one entry off the queue, so the loop ends. -/
theorem Sound.wakeUpAll_isSome (sound : kernel.Sound) (waits : kernel.Waits items) (shape : items queue = entries)
    (enough : entries.length < steps) : (Kernel.wakeUpAll fuel queue steps kernel).isSome := by
  induction entries generalizing kernel items steps with
  | nil =>
    obtain ⟨steps, rfl⟩ := Nat.exists_eq_add_one_of_ne_zero (Nat.ne_of_gt enough)
    simp [Kernel.wakeUpAll, waits.head_eq queue, shape]
  | cons entry rest ih =>
    obtain ⟨steps, rfl⟩ := Nat.exists_eq_add_one_of_ne_zero (Nat.ne_zero_of_lt enough)
    have mlfq : ((kernel.popEntry queue entry).procs (kernel.entryTask entry)).schedClass = .mlfq :=
      sound.consistent.classes _
    have woken := show (kernel.popEntry queue entry).makeReady fuel _ = _ from makeReady_eq mlfq
    obtain ⟨nextSound, nextWaits⟩ := sound.wake waits shape woken
    simp only [Kernel.wakeUpAll, waits.head_eq queue, shape, head?_cons]
    rw [show (kernel.entries entry).task = kernel.entryTask entry from rfl, woken]
    exact ih nextSound nextWaits (update_self ..) (by simpa using enough)

namespace Sound

section

variable (sound : kernel.Sound)
include sound

theorem sleepOn (enabled : (KernelOp.sleepOn queue entry).Enabled kernel) : (kernel.sleepOn queue entry).Sound := by
  obtain ⟨executing, apart⟩ := enabled
  have running := sound.active.running executing
  obtain ⟨items, waits⟩ := sound.waits
  have fresh : ∀ pid, kernel.stackEntry pid ≠ some entry := by
    intro pid found
    obtain ⟨frame, someFrame, isEntry⟩ := Option.bind_eq_some_iff.mp found
    cases frame with
    | sleepOn queue other scheduled =>
      cases isEntry
      exact apart pid queue scheduled someFrame
    | rtMutexLock lock scheduled => cases isEntry
  refine ⟨sound.consistent.sleepOn (.inl running),
    ⟨_, waits.sleepOn fresh (by simp [running])⟩, .inr (.inr ⟨⟨queue, entry, ?_⟩, .inl ?_⟩)⟩
  all_goals
    have current := (SameQueues.linkEntry kernel queue entry).current
    simp [Kernel.sleepOn, setFrame, setState, setProc, current]

theorem sleepReturn (frame : kernel.frames kernel.current = some (.sleepOn queue entry true)) :
    (kernel.setFrame kernel.current none).Sound := by
  obtain ⟨items, waits⟩ := sound.waits
  have state := sound.active.not_blocked frame
  refine ⟨sound.consistent.congr (SameQueues.sync ..), ⟨items, waits.clearFrame fun blocked => ?_⟩,
    state.imp_right .inl⟩
  rw [blocked] at state
  exact state.elim nofun nofun

theorem processSchedule (finds : (kernel.procs kernel.current).state = .blocked → kernel.pickNextTask ≠ none)
    (done : kernel.markScheduled.processSchedule fuel = some after) : after.Sound := by
  obtain ⟨items, waits⟩ := sound.waits
  have consistent : kernel.markScheduled.Consistent := sound.consistent.congr (SameQueues.sync ..)
  obtain ⟨same, outcome⟩ := processSchedule_effect consistent done
  refine ⟨consistent.processSchedule done, ⟨items, waits.markScheduled.congr same⟩, ?_⟩
  rcases outcome with running | ⟨rfl, none, notRunning, notReady⟩
  · exact .inl running
  · rcases sound.active with running | terminated | ⟨-, blocked | ready⟩
    · exact absurd running notRunning
    · exact .inr (.inl terminated)
    · have heads := pickNextTask_eq_none.mp none
      exact (finds blocked (pickNextTask_eq_none.mpr heads)).elim
    · exact absurd ready notReady

theorem addProcess (done : kernel.addProcess fuel proc = some after) (mlfq : proc.schedClass = .mlfq)
    (ready : proc.state = .ready) : after.Sound := by
  obtain ⟨items, waits⟩ := sound.waits
  obtain ⟨_, queued⟩ := sound.consistent
  have current_lt := Nat.ne_of_lt queued.current_lt
  have unborn := (queued.unborn kernel.nextPid le_rfl).1
  let enrolled : Kernel :=
    { kernel.setProc kernel.nextPid proc with
      processList := kernel.processList ++ [kernel.nextPid]
      nextPid := kernel.nextPid + 1
      frames := update kernel.frames kernel.nextPid none }
  have enrolledProc : enrolled.procs kernel.nextPid = proc := by
    change (kernel.setProc kernel.nextPid proc).procs kernel.nextPid = proc
    simp
  have enqueued : enrolled.enqueueProcess fuel kernel.nextPid = some after := done
  rw [enqueueProcess_eq (by rw [enrolledProc, mlfq]) (by rw [enrolledProc, ready])] at enqueued
  cases enqueued
  have requeued := enqueueTaskMlfq_requeued enrolled kernel.nextPid
  have state : ∀ pid, ((enrolled.enqueueTaskMlfq kernel.nextPid).procs pid).state =
      if pid = kernel.nextPid then .ready else (kernel.procs pid).state := by
    intro pid
    rw [requeued.state]
    split
    · rfl
    · rename_i different
      rw [setProc_procs, if_neg different]
  refine ⟨sound.consistent.addProcess done mlfq,
    ⟨items, (waits.clearFrame (show (kernel.procs kernel.nextPid).state ≠ .blocked by simp [unborn])).congr
      ⟨fun pid => ?_, requeued.sync⟩⟩, ?_⟩
  · rw [state]
    split
    · rename_i same
      subst same
      simp [setFrame, unborn]
    · rfl
  · refine sound.active.congr requeued.current (by rw [state, if_neg current_lt]) ?_
    rw [requeued.sync]
    exact update_of_ne current_lt _ _

theorem sysKill (done : kernel.sysKill fuel target sig = some (status, after))
    (undisturbed : ∀ pid ∈ kernel.killTargets target sig, (kernel.procs pid).state ≠ .blocked) : after.Sound := by
  obtain ⟨items, waits⟩ := sound.waits
  have signalled := sysKill_signalled sound.consistent done
  have state := fun pid => signalled.state pid (undisturbed pid)
  refine ⟨sound.consistent.sysKill done, ⟨items, waits.congr ⟨fun pid => by rw [state], signalled.sync⟩⟩,
    sound.active.congr signalled.current (state _) (by rw [signalled.sync])⟩

theorem processExit (executing : kernel.Executing)
    (undisturbed : ∀ parent, (kernel.reparentChildren.procs kernel.current).parent = some parent →
      (kernel.procs parent).state ≠ .blocked) (done : kernel.processExit fuel = some after) : after.Sound := by
  obtain ⟨items, waits⟩ := sound.waits
  obtain ⟨middle, woken, scheduled⟩ := Option.bind_eq_some_iff.mp done
  have reparented : SameTasks kernel kernel.reparentChildren := by
    refine ⟨fun pid => ?_, fun pid => ?_, rfl, rfl⟩
    all_goals
      simp only [reparentChildren, reparent]
      split <;> rfl
  have asleep : middle = kernel.reparentChildren := by
    simp only [wakeParent] at woken
    split at woken
    · cases woken
      rfl
    · rename_i parent isParent
      rw [if_neg (by rw [reparented.state]; exact undisturbed parent isParent)] at woken
      cases woken
      rfl
  subst asleep
  have running : (kernel.reparentChildren.procs kernel.current).state = .running :=
    (reparented.state _).trans (sound.active.running executing)
  have ended : SameBlocked kernel.reparentChildren
      (kernel.reparentChildren.setState kernel.current .terminated) :=
    SameBlocked.setState (by simp [running]) (by simp)
  have consistent : (kernel.reparentChildren.setState kernel.current .terminated).Consistent :=
    (sound.consistent.reparent ..).terminate
  obtain ⟨same, outcome⟩ := processSchedule_effect consistent scheduled
  refine ⟨sound.consistent.processExit done,
    ⟨items, ((waits.congr (.of_tasks reparented rfl)).congr ended).congr same⟩, ?_⟩
  rcases outcome with running | ⟨rfl, -⟩
  · exact .inl running
  · exact .inr (.inl (by simp [setState, setProc, reparentChildren, reparent]))

end

end Sound

end Kernel

/-- The operations of the wait queues and those that create, schedule, signal
and end processes. -/
def KernelOp.OnWaitQueues : KernelOp → Prop
  | .processCreate | .processFork | .processSchedule | .sleepOn _ _ | .sleepReturn _ _ | .wakeUp _
  | .wakeUpAll _ | .sysKill _ _ | .processExit => True
  | _ => False

/-- Sleepers are woken through their queue only, and a caller of
`process_schedule` that is still blocked finds a process to run. -/
def KernelOp.Undisturbed (kernel : Kernel) : KernelOp → Prop
  | .sysKill target sig => ∀ pid ∈ kernel.killTargets target sig, (kernel.procs pid).state ≠ .blocked
  | .processExit => ∀ parent, (kernel.reparentChildren.procs kernel.current).parent = some parent →
      (kernel.procs parent).state ≠ .blocked
  | .processSchedule => (kernel.procs kernel.current).state = .blocked → kernel.pickNextTask ≠ none
  | _ => True

theorem Kernel.Sound.step {after : Kernel} (sound : before.Sound) (relevant : op.OnWaitQueues)
    (undisturbed : op.Undisturbed before) (step : KernelStep before op after) : after.Sound := by
  obtain ⟨enabled, fuel, done⟩ := step
  cases op with
  | processCreate => exact sound.addProcess done rfl rfl
  | processFork => exact sound.addProcess done (sound.consistent.classes before.current) rfl
  | processSchedule => exact sound.processSchedule undisturbed done
  | sleepOn queue entry =>
    cases done
    exact sound.sleepOn enabled
  | sleepReturn queue entry =>
    cases done
    exact sound.sleepReturn enabled
  | wakeUp queue => exact sound.wakeUp done
  | wakeUpAll queue => exact sound.wakeUpAll done
  | sysKill pid sig =>
    obtain ⟨⟨status, final⟩, killed, rfl⟩ := Option.map_eq_some_iff.mp done
    exact sound.sysKill killed undisturbed
  | processExit => exact sound.processExit enabled undisturbed done
  | schedulerTick | processSleep | rtMutexLock | rtMutexRetry | rtMutexUnlock => exact relevant.elim

theorem Kernel.boot_sound : Kernel.boot.Sound := by
  refine ⟨boot_consistent, ⟨fun _ => [], ⟨fun queue => rfl, by simp, by simp⟩, fun _ => rfl, by simp,
    by simp, fun pid blocked => ?_, fun pid other entry found => ?_⟩, .inl (by decide +kernel)⟩
  · by_cases first : pid = 0 <;> simp [boot, first] at blocked
  · cases found

/-- Every linked entry belongs to a process inside the `sleep_on` call that owns it, a call
whose `process_schedule` has returned has its entry unlinked, and `wake_up_all` returns. -/
def Kernel.EntriesInsideSleepOn (kernel : Kernel) : Prop :=
  ∃ items : Nat → List Nat,
    Lists kernel.entryNext kernel.queueHead items ∧
    (∀ queue, (kernel.waitQueues queue).tail = (items queue).getLast?) ∧
    (∀ queue, ∀ entry ∈ items queue, ∃ scheduled,
      kernel.frames (kernel.entryTask entry) = some (.sleepOn queue entry scheduled)) ∧
    (∀ queue entry, kernel.frames kernel.current = some (.sleepOn queue entry true) →
      ∀ other, entry ∉ items other) ∧
    ∀ queue, ∃ bound, ∀ fuel, bound ≤ fuel → (Kernel.wakeUpAll fuel queue fuel kernel).isSome

theorem Kernel.Sound.entriesInside {kernel : Kernel} (sound : kernel.Sound) : kernel.EntriesInsideSleepOn := by
  obtain ⟨items, waits⟩ := sound.waits
  refine ⟨items, waits.lists, waits.tails, waits.inside, fun queue entry frame other listed => ?_,
    fun queue => ⟨(items queue).length + 1, fun fuel enough =>
      sound.wakeUpAll_isSome waits rfl enough⟩⟩
  have owner : kernel.entryTask entry = kernel.current :=
    waits.apart _ _ entry (waits.stackEntry_eq listed) (by simp [stackEntry, frame, Frame.entry])
  have state := sound.active.not_blocked frame
  rw [← owner, waits.blocked other entry listed] at state
  rcases state with state | state <;> cases state

theorem undisturbed_run_entries_inside {trace : List KernelOp} {kernel : Kernel}
    (run : Run (fun before op after => KernelStep before op after ∧ op.OnWaitQueues ∧
      op.Undisturbed before) Kernel.boot trace kernel) : kernel.EntriesInsideSleepOn := by
  refine Kernel.Sound.entriesInside (run.invariant Kernel.boot_sound ?_)
  rintro before op after sound ⟨step, relevant, undisturbed⟩
  exact sound.step relevant undisturbed step

/-- Process 1 sleeps, is woken through the queue and returns from `sleep_on`. -/
theorem undisturbed_run_entries_inside_sleeper :
    (Kernel.runOps [.processCreate, .processSchedule, .sleepOn 0 0, .processSchedule, .wakeUpAll 0,
      .processSchedule, .sleepReturn 0 0]).EntriesInsideSleepOn := by
  refine undisturbed_run_entries_inside (Run.of_performs
    ⟨⟨.of_isSome trivial (by decide +kernel), trivial, trivial⟩,
    ⟨.of_isSome trivial (by decide +kernel), trivial, fun _ => by decide +kernel⟩,
    ⟨.of_isSome ⟨⟨by decide +kernel, by decide +kernel⟩, ?_⟩ (by decide +kernel), trivial, trivial⟩,
    ⟨.of_isSome trivial (by decide +kernel), trivial, fun _ => by decide +kernel⟩,
    ⟨.of_isSome trivial (by decide +kernel), trivial, trivial⟩,
    ⟨.of_isSome trivial (by decide +kernel), trivial, fun _ => by decide +kernel⟩,
    ⟨.of_isSome rfl (by decide +kernel), trivial, trivial⟩, trivial⟩)
  · rintro (_ | _ | pid) queue scheduled
    all_goals exact nofun

def signalledReturn : List KernelOp :=
  [.processCreate, .processSchedule, .sleepOn 0 0, .processSchedule, .sysKill 1 15, .processSchedule,
    .sleepReturn 0 0]

/-- `sleep_on` has returned and its entry is still the head of the queue. -/
theorem signalled_sleep_on_leaves_entry :
    Run KernelStep Kernel.boot signalledReturn (Kernel.runOps signalledReturn) ∧
      ¬ (Kernel.runOps signalledReturn).EntriesInsideSleepOn := by
  refine ⟨Run.of_performs ⟨.of_isSome trivial (by decide +kernel),
    .of_isSome trivial (by decide +kernel),
    .of_isSome ⟨⟨by decide +kernel, by decide +kernel⟩, ?_⟩ (by decide +kernel),
    .of_isSome trivial (by decide +kernel), .of_isSome trivial (by decide +kernel),
    .of_isSome trivial (by decide +kernel), .of_isSome rfl (by decide +kernel),
    trivial⟩, ?_⟩
  · rintro (_ | _ | pid) queue scheduled
    all_goals exact nofun
  · rintro ⟨items, lists, -, inside, -⟩
    have linked : items 0 = [0] := (lists.linked 0).unique (by decide +kernel)
    obtain ⟨scheduled, frame⟩ := inside 0 0 (by simp [linked])
    have returned : (Kernel.runOps signalledReturn).frames
        ((Kernel.runOps signalledReturn).entryTask 0) = none := by decide +kernel
    cases returned.symm.trans frame

end Rucix.Sched
