import Rucix.Sched.RtMutex

namespace Rucix.Sched

open Rucix.Data Function List Kernel

/-! Runs of the rt mutexes: who owns and who waits, that a free lock with waiters
is always attended, and priority inheritance. -/

variable {view final : RtView} {pid : Nat} {op : RtOp}

namespace RtSection

theorem sound (step : RtSection view pid op final) (sound : view.table.Sound)
    (place : view.table.waiting pid = op.place) : final.table.Sound := by
  cases step with
  | @take _ lock takes free =>
    have idle : view.table.waiting pid = none := by
      rcases takes with rfl | rfl <;> exact place
    refine sound.take free ?_
    rw [idle]
    nofun
  | own | again | fail | refuse => exact sound
  | @join lock owner owned different =>
    refine sound.enqueue place ?_
    rw [owned]
    simpa using different
  | @retake lock free =>
    refine (sound.leave place).take free ?_
    simp [LockTable.leave]
  | leave owned => exact sound.leave place
  | release owned restored best => exact sound.release owned

/-- Only the owner gives a lock away, and only by `rt_mutex_unlock`. -/
theorem keeps_owner (step : RtSection view pid op final) (owned : view.table.owner lock = some owner)
    (kept : ¬(pid = owner ∧ op = .rtMutexUnlock lock)) : final.table.owner lock = some owner := by
  have taken : ∀ key, view.table.owner key = none → (view.table.take pid key).owner lock = some owner := by
    intro key free
    have different : lock ≠ key := by
      rintro rfl
      cases free.symm.trans owned
    simpa [LockTable.take, different] using owned
  cases step with
  | take takes free => exact taken _ free
  | own | join | leave | again | fail | refuse => exact owned
  | retake free => exact taken _ free
  | @release key urgency chosen mine restored best =>
    have different : lock ≠ key := by
      rintro rfl
      exact kept ⟨Option.some.inj (mine.symm.trans owned), rfl⟩
    simpa [LockTable.release, different] using owned

end RtSection

namespace Kernel

variable {start kernel after : Kernel} {trace : List RtLabel}

theorem Fresh.sound (fresh : start.Fresh) : start.lockTable.Sound := by
  refine ⟨fun pid lock => ?_, fun lock => ?_, fun pid lock => ?_, fun pid lock owned => ?_⟩
  · simp [lockTable, fresh.rtMutexes, fresh.heldLocks]
  · simp [lockTable, fresh.rtMutexes]
  · simp [lockTable, fresh.rtMutexes, fresh.slowPath]
  · simp [lockTable, fresh.rtMutexes] at owned

end Kernel

variable {start before kernel after : Kernel} {trace : List RtLabel} {label : RtLabel}

theorem RtStep.sound (step : RtStep Undisturbed before label after) (sound : before.lockTable.Sound) :
    after.lockTable.Sound := by
  cases label with
  | call pid op =>
    obtain ⟨effect, place⟩ := step.section_of_call
    exact effect.sound sound place
  | elsewhere =>
    have quiet : before.Undisturbed after := step
    rw [quiet.lockTable]
    exact sound

theorem rt_run_sound (fresh : start.Fresh) (run : Run (RtStep Undisturbed) start trace kernel) :
    kernel.lockTable.Sound :=
  run.invariant fresh.sound fun _ _ _ sound step => step.sound sound

theorem rt_run_keeps_owner (run : Run (RtStep Undisturbed) start trace kernel)
    (owned : (start.rtMutexes lock).owner = some pid) (kept : .call pid (.rtMutexUnlock lock) ∉ trace) :
    (kernel.rtMutexes lock).owner = some pid := by
  induction run with
  | nil => exact owned
  | @snoc trace middle final label earlier last ih =>
    simp only [mem_append, mem_singleton, not_or] at kept
    have still := ih kept.1
    cases label with
    | call caller op =>
      refine last.section_of_call.1.keeps_owner still fun released => kept.2 ?_
      rw [released.1, released.2]
    | elsewhere =>
      have quiet : middle.Undisturbed final := last
      exact (congrFun (congrArg LockTable.owner quiet.lockTable) lock).trans still

theorem RtStep.undisturbed (step : RtStep Unprioritized before label after) :
    RtStep Undisturbed before label after := by
  cases label with
  | call pid op => exact step
  | elsewhere => exact Unprioritized.toUndisturbed step

/-- The current process enters `process_schedule` and another one goes on. -/
def Kernel.resume (kernel : Kernel) (pid : Nat) : Kernel := { kernel.markScheduled with current := pid }

theorem Kernel.Unprioritized.resume : Unprioritized kernel (kernel.resume pid) :=
  ⟨⟨(Undisturbed.markScheduled).lockTable, fun _ _ awake => awake⟩, fun _ => rfl⟩

def RtOp.outcome (kernel : Kernel) (pid : Nat) (op : RtOp) : Kernel :=
  (op.perform 8 (kernel.resume pid)).getD (kernel.resume pid)

def Kernel.turns (kernel : Kernel) : List (Nat × RtOp) → Kernel
  | [] => kernel
  | (pid, op) :: rest => (op.outcome kernel pid).turns rest

def Turns (Allowed : Kernel → RtLabel → Prop) (kernel : Kernel) : List (Nat × RtOp) → Prop
  | [] => True
  | (pid, op) :: rest =>
    op.Enabled (kernel.resume pid) ∧ (op.perform 8 (kernel.resume pid)).isSome ∧
      Allowed kernel .elsewhere ∧ Allowed (kernel.resume pid) (.call pid op) ∧
      Turns Allowed (op.outcome kernel pid) rest

theorem Turns.run {Allowed : Kernel → RtLabel → Prop} {schedule : List (Nat × RtOp)}
    (turns : Turns Allowed start schedule) :
    Run (fun before label after => RtStep Unprioritized before label after ∧ Allowed before label)
      start (schedule.flatMap fun turn => [.elsewhere, .call turn.1 turn.2]) (start.turns schedule) := by
  induction schedule generalizing start with
  | nil => exact .nil
  | cons turn rest ih =>
    obtain ⟨pid, op⟩ := turn
    obtain ⟨enabled, returns, switched, allowed, turns⟩ := turns
    obtain ⟨after, done⟩ := Option.isSome_iff_exists.mp returns
    have result : op.outcome start pid = after := by simp [RtOp.outcome, done]
    have turned : Run (fun before label after =>
        RtStep Unprioritized before label after ∧ Allowed before label)
        start ([] ++ [.elsewhere] ++ [.call pid op]) after :=
      .snoc (.snoc .nil ⟨Unprioritized.resume, switched⟩)
        ⟨⟨rfl, enabled, 8, done⟩, allowed⟩
    rw [← result] at turned
    exact turned.trans (ih turns)

def rankedKernel : Kernel :=
  { boot with
    procs := fun pid => { newProcess with priority := min pid 3, basePriority := min pid 3 } }

theorem rankedKernel_fresh : rankedKernel.Fresh :=
  ⟨fun _ => rfl, fun _ => rfl, fun _ => rfl⟩

/-- Process 2 has the lock, process 1 waits and takes it when 2 gives it back. -/
def handover : List (Nat × RtOp) :=
  [(2, .rtMutexLock 0), (1, .rtMutexLock 0), (2, .rtMutexUnlock 0), (1, .rtMutexRetry 0)]

theorem handover_turns : Turns (fun _ _ => True) rankedKernel handover :=
  ⟨rfl, rfl, trivial, trivial, rfl, rfl, trivial, trivial, rfl, rfl, trivial, trivial, rfl, rfl, trivial,
    trivial, trivial⟩

/-- The call has returned and the caller has the lock. -/
def RtOp.Acquires (after : Kernel) (pid lock : Nat) : RtOp → Prop
  | .rtMutexLock key | .rtMutexRetry key => key = lock ∧ after.slowPath pid = none
  | .rtMutexTrylock key returned => key = lock ∧ returned ≠ 0
  | .rtMutexUnlock _ => False

theorem RtStep.owner_of_acquires (step : RtStep environment before (.call pid op) after)
    (acquires : op.Acquires after pid lock) : (after.rtMutexes lock).owner = some pid := by
  obtain ⟨effect, place⟩ := step.section_of_call
  change after.rtView.table.owner lock = some pid
  generalize viewBefore : before.rtView = first at effect
  generalize viewAfter : after.rtView = second at effect
  have returned : after.slowPath pid = second.table.waiting pid := by rw [← viewAfter]; rfl
  have inside : before.lockTable.waiting pid = first.table.waiting pid := by rw [← viewBefore]; rfl
  cases effect with
  | @take _ key takes free =>
    have same : key = lock := by
      rcases takes with rfl | rfl <;> exact acquires.1
    simp [LockTable.take, same]
  | own owned => exact acquires.1 ▸ owned
  | @join key owner owned different =>
    have outside := returned.symm.trans acquires.2
    simp [LockTable.enqueue] at outside
  | retake free => simp [LockTable.take, LockTable.leave, acquires.1]
  | leave owned => exact acquires.1 ▸ owned
  | again owned different =>
    have outside : first.table.waiting pid = none := returned.symm.trans acquires.2
    rw [inside, outside] at place
    cases place
  | fail owned => exact absurd rfl acquires.2
  | refuse | release => exact acquires.elim

/-- Held lists and owners agree, wait lists hold exactly the processes in the slow path,
and only its owner gives a lock back. -/
theorem rt_mutex_run_ownership (fresh : start.Fresh) (run : Run (RtStep Undisturbed) start trace kernel) :
    (∀ pid lock, (kernel.procs pid).heldLocks.count lock =
      if (kernel.rtMutexes lock).owner = some pid then 1 else 0) ∧
    (∀ lock, (kernel.rtMutexes lock).waitList.Nodup ∧
      ∀ pid, pid ∈ (kernel.rtMutexes lock).waitList ↔ kernel.slowPath pid = some lock) ∧
    (∀ pid op lock after, RtStep Undisturbed kernel (.call pid op) after →
      op.Acquires after pid lock → (after.rtMutexes lock).owner = some pid) ∧
    (∀ pid lock later final, Run (RtStep Undisturbed) kernel later final →
      (kernel.rtMutexes lock).owner = some pid → .call pid (.rtMutexUnlock lock) ∉ later →
      (final.rtMutexes lock).owner = some pid) ∧
    ∀ pid lock after, RtStep Undisturbed kernel (.call pid (.rtMutexUnlock lock)) after →
      (kernel.rtMutexes lock).owner ≠ some pid → after = kernel := by
  have sound := rt_run_sound fresh run
  refine ⟨sound.held, fun lock => ⟨sound.nodup lock, fun pid => sound.queued pid lock⟩, ?_, ?_, ?_⟩
  · intro pid op lock after step acquires
    exact step.owner_of_acquires acquires
  · intro pid lock later final continued owned kept
    exact rt_run_keeps_owner continued owned kept
  · rintro pid lock after ⟨rfl, -, fuel, done⟩ other
    have refused : kernel.rtMutexUnlock fuel lock = some kernel := if_pos other
    exact (Option.some.inj (refused.symm.trans done)).symm

theorem rt_mutex_run_ownership_handover :
    ((rankedKernel.turns handover).rtMutexes 0).owner = some 1 ∧
      ((rankedKernel.turns handover).procs 1).heldLocks.count 0 = 1 := by
  have run := handover_turns.run.mono fun _ _ _ step => step.1.undisturbed
  exact ⟨rfl, (rt_mutex_run_ownership rankedKernel_fresh run).1 1 0⟩

def Kernel.Urgent (kernel : Kernel) : Prop := ∀ pid, (kernel.procs pid).priority < 999

theorem IsBest.congr {first second : Nat → Int} {waiters : List Nat} {best : Nat}
    (same : ∀ waiter ∈ waiters, first waiter = second waiter) (isBest : IsBest first waiters best) :
    IsBest second waiters best := by
  obtain ⟨early, late, rfl, before, behind⟩ := isBest
  have chosen : first best = second best := same best (by simp)
  refine ⟨early, late, rfl, fun waiter member => ?_, fun waiter member => ?_⟩
  · rw [← chosen, ← same waiter (by simp [member])]
    exact before waiter member
  · rw [← chosen, ← same waiter (by simp [member])]
    exact behind waiter member

theorem IsBest.mem (isBest : IsBest priority waiters best) : best ∈ waiters := by
  obtain ⟨early, late, rfl, -, -⟩ := isBest
  simp

namespace RtSection

theorem exists_best (sound : view.table.Sound) (owned : view.table.owner lock = some pid)
    (urgent : ∀ pid, view.priority pid < 999) (waited : view.table.queue lock ≠ []) : ∃ best,
      (bestOf (update view.priority pid urgency) (view.table.queue lock) (999, none)).2 =
        some best ∧ IsBest view.priority (view.table.queue lock) best := by
  have others : ∀ waiter ∈ view.table.queue lock,
      update view.priority pid urgency waiter = view.priority waiter := by
    intro waiter queued
    have different : waiter ≠ pid := by
      rintro rfl
      exact sound.apart waiter lock owned ((sound.queued waiter lock).mp queued)
    simp [different]
  obtain ⟨best, chosen, isBest⟩ := exists_isBest
    (fun waiter queued => (others waiter queued).trans_lt (urgent waiter)) waited
  exact ⟨best, chosen, isBest.congr others⟩

theorem attended (step : RtSection view pid op final) (sound : view.table.Sound)
    (place : view.table.waiting pid = op.place) (urgent : ∀ pid, view.priority pid < 999)
    (attended : view.table.Attended fun pid => view.state pid ≠ .blocked) :
    final.table.Attended fun pid => final.state pid ≠ .blocked := by
  have others : ∀ other, other ≠ pid → view.state other ≠ .blocked →
      update view.state pid .blocked other ≠ .blocked := by
    intro other different awake
    rwa [update_of_ne different]
  cases step with
  | take takes free => exact attended.take
  | own | fail | refuse => exact attended
  | @join lock owner owned different =>
    have owned' : view.table.owner lock ≠ none := by simp [owned]
    have joined : (view.table.enqueue pid lock).Sound :=
      sound.enqueue place (by simpa [owned] using different)
    exact (attended.setQueue owned').sleep joined (by simp) owned' others
  | retake free => exact attended.take.setQueue (by simp [LockTable.take])
  | leave owned => exact attended.setQueue (by simp [owned])
  | again owned different => exact attended.sleep sound place (by simp [owned]) others
  | @release lock urgency chosen owned restored best =>
    have more : ∀ other, view.state other ≠ .blocked →
        (chosen.elim view.state fun waiter => update view.state waiter .ready) other ≠
          .blocked := by
      intro other awake
      cases chosen with
      | none => exact awake
      | some waiter =>
        by_cases same : other = waiter <;> simp [same, awake]
    refine attended.release more fun waited => ?_
    obtain ⟨waiter, found, isBest⟩ := exists_best sound owned urgent waited
    rw [found] at best
    subst best
    exact ⟨waiter, isBest.mem, by simp⟩

end RtSection

structure Kernel.HandedOff (kernel : Kernel) : Prop where
  sound : kernel.lockTable.Sound
  attended : kernel.lockTable.Attended fun pid => (kernel.procs pid).state ≠ .blocked

theorem Kernel.Fresh.handedOff (fresh : start.Fresh) : start.HandedOff := by
  refine ⟨fresh.sound, fun lock _ waited => ?_⟩
  simp [lockTable, fresh.rtMutexes] at waited

theorem RtStep.handedOff (step : RtStep Undisturbed before label after) (urgent : before.Urgent)
    (handedOff : before.HandedOff) : after.HandedOff := by
  refine ⟨step.sound handedOff.sound, ?_⟩
  cases label with
  | call pid op =>
    obtain ⟨effect, place⟩ := step.section_of_call
    exact effect.attended handedOff.sound place urgent handedOff.attended
  | elsewhere =>
    have quiet : before.Undisturbed after := step
    intro lock free waited
    rw [quiet.lockTable] at free waited ⊢
    obtain ⟨waiter, queued, awake⟩ := handedOff.attended lock free waited
    refine ⟨waiter, queued, quiet.awake waiter ?_ awake⟩
    have waiting : before.slowPath waiter = some lock := (handedOff.sound.queued waiter lock).mp queued
    simp [waiting]

/-- With every priority below 999, a free lock with waiters has one that is not
blocked, and `rt_mutex_unlock` readies the earliest of the most urgent waiters
and no other process. -/
theorem rt_mutex_run_hands_off (fresh : start.Fresh)
    (run : Run (fun before label after => RtStep Undisturbed before label after ∧ before.Urgent)
      start trace kernel) :
    (∀ lock, (kernel.rtMutexes lock).owner = none → (kernel.rtMutexes lock).waitList ≠ [] →
      ∃ pid ∈ (kernel.rtMutexes lock).waitList, (kernel.procs pid).state ≠ .blocked) ∧
    (kernel.Urgent → ∀ pid lock after,
      RtStep Undisturbed kernel (.call pid (.rtMutexUnlock lock)) after →
      (kernel.rtMutexes lock).owner = some pid → (kernel.rtMutexes lock).waitList ≠ [] →
      ∃ best, IsBest (fun pid => (kernel.procs pid).priority) (kernel.rtMutexes lock).waitList best ∧
        ∀ other, (after.procs other).state =
          if other = best then .ready else (kernel.procs other).state) := by
  have handedOff : kernel.HandedOff :=
    run.invariant fresh.handedOff fun _ _ _ handedOff step => step.1.handedOff step.2 handedOff
  refine ⟨handedOff.attended, fun urgent pid lock after step owned waited => ?_⟩
  have effect := step.section_of_call.1
  have states : ∀ other, (after.procs other).state = after.rtView.state other := fun _ => rfl
  generalize after.rtView = second at effect states
  cases effect with
  | take takes free => rcases takes with takes | takes <;> cases takes
  | refuse other => exact absurd owned other
  | @release _ urgency chosen _ restored best =>
    have sound : kernel.rtView.table.Sound := handedOff.sound
    obtain ⟨waiter, found, isBest⟩ := RtSection.exists_best sound owned urgent waited
    refine ⟨waiter, isBest, fun other => ?_⟩
    have picked : chosen = some waiter := best.symm.trans found
    rw [states, picked]
    by_cases same : other = waiter
    · simp [same]
    · simp [same, rtView]

def Kernel.Schedules (before after : Kernel) : Prop :=
  ∃ fuel, before.markScheduled.processSchedule fuel = some after

theorem RtStep.of_schedules (step : RtStep Schedules before label after) : RtStep Undisturbed before label after := by
  cases label with
  | call pid op => exact step
  | elsewhere =>
    obtain ⟨fuel, done⟩ := step
    exact Undisturbed.processSchedule done

/-- With only `process_schedule` between the calls, as in the sleep of `rt_mutex_lock`, ownership
and hand-off rest on no assumption on other code. -/
theorem scheduled_run_hands_off (fresh : start.Fresh)
    (run : Run (fun before label after => RtStep Schedules before label after ∧ before.Urgent) start trace kernel) :
    kernel.HandedOff :=
  run.invariant fresh.handedOff fun _ _ _ handedOff step => step.1.of_schedules.handedOff step.2 handedOff

theorem Kernel.Urgent.rtMutexLock (urgent : kernel.Urgent) : (kernel.rtMutexLock lock).Urgent := by
  have effect := rtMutexLock_section kernel lock
  have urgent : ∀ pid, kernel.rtView.priority pid < 999 := urgent
  change ∀ pid, (kernel.rtMutexLock lock).rtView.priority pid < 999
  generalize (kernel.rtMutexLock lock).rtView = second at effect ⊢
  cases effect with
  | take | own => exact urgent
  | @join _ owner owned different =>
    intro pid
    by_cases same : pid = owner
    · subst same
      simpa using .inl (urgent pid)
    · simpa [same] using urgent pid

theorem Kernel.Urgent.lockTurn (urgent : kernel.Urgent) (pid lock : Nat) :
    ((RtOp.rtMutexLock lock).outcome kernel pid).Urgent := by
  have resumed : (kernel.resume pid).Urgent := urgent
  exact resumed.rtMutexLock

/-- Process 3 has the lock, process 2 and then process 1 wait for it. -/
def twoWaiting : List (Nat × RtOp) :=
  [(3, .rtMutexLock 0), (2, .rtMutexLock 0), (1, .rtMutexLock 0), (3, .rtMutexLock 0)]

theorem rankedKernel_urgent : rankedKernel.Urgent := by
  intro pid
  simp only [rankedKernel]
  omega

theorem twoWaiting_turns : Turns (fun kernel _ => kernel.Urgent) rankedKernel twoWaiting ∧
    (rankedKernel.turns twoWaiting).Urgent := by
  have first := rankedKernel_urgent
  have second := first.lockTurn 3 0
  have third := second.lockTurn 2 0
  have fourth := third.lockTurn 1 0
  exact ⟨⟨rfl, rfl, first, first, rfl, rfl, second, second, rfl, rfl, third, third, rfl, rfl, fourth, fourth,
    trivial⟩, fourth.lockTurn 3 0⟩

theorem rt_mutex_run_hands_off_to_best :
    ∃ best, IsBest (fun pid => ((rankedKernel.turns twoWaiting).procs pid).priority) [2, 1] best ∧
      ∀ other, (((rankedKernel.turns twoWaiting).rtMutexUnlock 8 0).map fun after =>
        (after.procs other).state) =
          some (if other = best then .ready else ((rankedKernel.turns twoWaiting).procs other).state) := by
  have run : Run (fun before label after =>
      RtStep Undisturbed before label after ∧ before.Urgent) rankedKernel _ _ :=
    twoWaiting_turns.1.run.mono fun _ _ _ step => ⟨step.1.undisturbed, step.2⟩
  have handsOff := (rt_mutex_run_hands_off rankedKernel_fresh run).2 twoWaiting_turns.2
  obtain ⟨best, isBest, states⟩ := handsOff 3 0 _ ⟨rfl, rfl, 8, rfl⟩ rfl (by decide)
  exact ⟨best, isBest, fun other => congrArg some (states other)⟩

theorem Kernel.Urgent.schedules (urgent : kernel.Urgent) (step : kernel.Schedules after) : after.Urgent := by
  obtain ⟨fuel, done⟩ := step
  obtain ⟨requeued, queued, rfl⟩ := Option.map_eq_some_iff.mp done
  have beside : Beside Process.priority := ⟨fun _ _ => rfl, fun _ _ => rfl⟩
  intro pid
  rw [(Kept.switchToNext beside).fields]
  simp only [requeueCurrent] at queued
  split at queued
  · rw [(Kept.enqueueProcess beside queued).fields, demote]
    have before := ((Kept.setState beside kernel.markScheduled kernel.markScheduled.current .ready).fields pid).trans_lt
      (urgent pid)
    split
    · by_cases same : pid = kernel.markScheduled.current
      · subst same
        simp only [setProc, update_self, mlfqLevels]
        split <;> omega
      · simpa [setProc, same] using before
    · exact before
  · cases queued
    exact urgent pid

def Kernel.scheduled (kernel : Kernel) : Kernel := (kernel.markScheduled.processSchedule 8).getD kernel

/-- Process 1 runs and process 0 is ready. -/
def queuedKernel : Kernel :=
  { rankedKernel with
    procs := fun pid => { rankedKernel.procs pid with state := if pid = 1 then .running else .ready }
    current := 1
    mlfqQueues := fun level => if level.val = 0 then some 0 else none
    mlfqTails := fun level => if level.val = 0 then some 0 else none }

/-- Process 1 has the lock, process 0 goes to sleep on it and process 1 runs again. -/
def sleptOn : Kernel := ((queuedKernel.rtMutexLock 0).scheduled.rtMutexLock 0).scheduled

theorem scheduled_run_hands_off_unlocked : ∃ after, sleptOn.rtMutexUnlock 8 0 = some after ∧
    after.rtMutexes 0 = ⟨none, [0]⟩ ∧ after.HandedOff := by
  have fresh : queuedKernel.Fresh := ⟨fun _ => rfl, fun _ => rfl, fun _ => rfl⟩
  have first : queuedKernel.Urgent := rankedKernel_urgent
  have switched : (queuedKernel.rtMutexLock 0).Schedules (queuedKernel.rtMutexLock 0).scheduled := ⟨8, rfl⟩
  have second := first.rtMutexLock.schedules switched
  have back : ((queuedKernel.rtMutexLock 0).scheduled.rtMutexLock 0).Schedules sleptOn := ⟨8, rfl⟩
  have run : Run (fun before label after => RtStep Schedules before label after ∧ before.Urgent) queuedKernel
      [.call 1 (.rtMutexLock 0), .elsewhere, .call 0 (.rtMutexLock 0), .elsewhere] sleptOn :=
    .snoc (.snoc (.snoc (.snoc .nil ⟨⟨rfl, rfl, 0, rfl⟩, first⟩) ⟨switched, first.rtMutexLock⟩)
      ⟨⟨rfl, rfl, 0, rfl⟩, second⟩) ⟨back, second.rtMutexLock⟩
  have unlocked : RtStep Schedules sleptOn (.call 1 (.rtMutexUnlock 0)) _ := ⟨rfl, rfl, 8, rfl⟩
  exact ⟨_, rfl, rfl, scheduled_run_hands_off fresh
    (run.snoc ⟨unlocked, second.rtMutexLock.schedules back⟩)⟩

/-- A process that takes a free lock is as urgent as those that wait for it. -/
def Kernel.MayTake (kernel : Kernel) (pid lock : Nat) : Prop :=
  (kernel.rtMutexes lock).owner = none → ∀ waiter ∈ (kernel.rtMutexes lock).waitList,
    (kernel.procs pid).priority ≤ (kernel.procs waiter).priority

/-- A process that raises the owner of a lock finds the processes for which the
owner waits as urgent as itself. -/
def Kernel.MayRaise (kernel : Kernel) (pid lock : Nat) : Prop :=
  ∀ owner, (kernel.rtMutexes lock).owner = some owner →
    (kernel.procs pid).priority < (kernel.procs owner).priority →
    ∀ other, kernel.lockTable.WaitsFor owner other →
      (kernel.procs other).priority ≤ (kernel.procs pid).priority

def RtLabel.Orderly (kernel : Kernel) : RtLabel → Prop
  | .call pid (.rtMutexLock lock) => kernel.MayTake pid lock ∧ kernel.MayRaise pid lock
  | .call pid (.rtMutexRetry lock) | .call pid (.rtMutexTrylock lock _) => kernel.MayTake pid lock
  | _ => True

def Kernel.Inherits (kernel : Kernel) : Prop :=
  kernel.lockTable.Inherits fun pid => (kernel.procs pid).priority

namespace RtSection

variable {lock : Nat}

variable (inherits : view.table.Inherits view.priority)
include inherits

theorem inherits_retake (sound : view.table.Sound) (free : view.table.owner lock = none) :
    ((view.table.take pid lock).leave pid lock).Inherits view.priority ↔
      ∀ waiter ∈ view.table.queue lock, view.priority pid ≤ view.priority waiter := by
  have free : (view.table.leave pid lock).owner lock = none := free
  rw [LockTable.take_leave_comm, LockTable.inherits_take_iff free, and_iff_right inherits.leave]
  have remaining : ∀ waiter, waiter ∈ (view.table.leave pid lock).queue lock ↔
      waiter ≠ pid ∧ waiter ∈ view.table.queue lock := by
    intro waiter
    simpa [LockTable.leave] using (sound.nodup lock).mem_erase_iff
  constructor
  · intro urgent waiter queued
    by_cases same : waiter = pid
    · rw [same]
    · exact urgent waiter ((remaining waiter).mpr ⟨same, queued⟩)
  · intro urgent waiter queued
    exact urgent waiter ((remaining waiter).mp queued).2

/-- A new waiter raises the owner of the lock but nobody behind it. -/
theorem inherits_join (sound : view.table.Sound) (owned : view.table.owner lock = some owner)
    (different : owner ≠ pid) :
    (view.table.enqueue pid lock).Inherits
        (update view.priority owner (min (view.priority owner) (view.priority pid))) ↔
      (view.priority pid < view.priority owner → ∀ other, view.table.WaitsFor owner other →
        view.priority other ≤ view.priority pid) := by
  rw [LockTable.inherits_enqueue_iff owned]
  by_cases raises : view.priority pid < view.priority owner
  · have settled : update view.priority owner (view.priority pid) owner ≤
        update view.priority owner (view.priority pid) pid := by
      simp [Ne.symm different]
    rw [min_eq_right raises.le, inherits.boost_iff sound raises.le, and_iff_left settled]
    simp [raises]
  · simp [inherits, not_lt.mp raises]

/-- `rt_mutex_unlock` leaves its caller as urgent as those that still wait for it. -/
theorem inherits_release (sound : view.table.Sound) (idle : view.table.waiting pid = none)
    (owned : view.table.owner lock = some pid) (restored : urgency = view.priority pid ∨
      ∀ key ∈ (view.table.release pid lock).held pid, ∀ waiter ∈ view.table.queue key,
        urgency ≤ view.priority waiter) :
    (view.table.release pid lock).Inherits (update view.priority pid urgency) := by
  rcases restored with rfl | urgent
  · rw [update_eq_self]
    exact inherits.release
  · exact inherits.release.restore (sound.release owned) idle urgent

end RtSection

namespace Kernel

variable {lock owner : Nat}

theorem mayTake_of_owned (owned : (kernel.rtMutexes lock).owner = some owner) : kernel.MayTake pid lock := by
  intro free
  cases free.symm.trans owned

theorem mayTake_iff (free : (kernel.rtMutexes lock).owner = none) :
    kernel.MayTake pid lock ↔ ∀ waiter ∈ (kernel.rtMutexes lock).waitList,
      (kernel.procs pid).priority ≤ (kernel.procs waiter).priority := by
  simp [MayTake, free]

theorem mayRaise_of_free (free : (kernel.rtMutexes lock).owner = none) : kernel.MayRaise pid lock := by
  intro owner owned
  cases free.symm.trans owned

theorem mayRaise_iff (owned : (kernel.rtMutexes lock).owner = some owner) :
    kernel.MayRaise pid lock ↔ ((kernel.procs pid).priority < (kernel.procs owner).priority →
      ∀ other, kernel.lockTable.WaitsFor owner other →
        (kernel.procs other).priority ≤ (kernel.procs pid).priority) := by
  simp [MayRaise, owned]

end Kernel

theorem RtStep.inherits_iff (step : RtStep Unprioritized before label after) (sound : before.lockTable.Sound)
    (inherits : before.Inherits) : after.Inherits ↔ label.Orderly before := by
  cases label with
  | elsewhere =>
    have quiet : before.Unprioritized after := step
    have same : after.Inherits ↔ before.Inherits := by
      simp only [Inherits, quiet.lockTable, quiet.priority]
    simp [same, inherits, RtLabel.Orderly]
  | call pid op =>
    obtain ⟨effect, place⟩ := step.section_of_call
    have inherited : before.rtView.table.Inherits before.rtView.priority := inherits
    change after.rtView.table.Inherits after.rtView.priority ↔ _
    generalize after.rtView = second at effect
    cases effect with
    | @take _ lock takes free =>
      have orderly : (RtLabel.call pid op).Orderly before ↔ before.MayTake pid lock := by
        rcases takes with rfl | rfl
        · exact and_iff_left (mayRaise_of_free free)
        · exact Iff.rfl
      rw [orderly, mayTake_iff free]
      exact (LockTable.inherits_take_iff free).trans (and_iff_right inherited)
    | own owned =>
      refine iff_of_true inherited ⟨mayTake_of_owned owned, ?_⟩
      exact (mayRaise_iff owned).mpr fun less => absurd less (lt_irrefl _)
    | join owned different =>
      refine (RtSection.inherits_join inherited sound owned different).trans ?_
      exact (mayRaise_iff owned).symm.trans
        (and_iff_right (mayTake_of_owned owned)).symm
    | retake free =>
      exact (RtSection.inherits_retake inherited sound free).trans (mayTake_iff free).symm
    | leave owned => exact iff_of_true inherited.leave (mayTake_of_owned owned)
    | again owned different => exact iff_of_true inherited (mayTake_of_owned owned)
    | fail owned => exact iff_of_true inherited (mayTake_of_owned owned)
    | refuse other => exact iff_of_true inherited trivial
    | release owned restored best =>
      exact iff_of_true (RtSection.inherits_release inherited sound place owned restored) trivial

structure Kernel.Prioritized (kernel : Kernel) : Prop where
  sound : kernel.lockTable.Sound
  inherits : kernel.Inherits

theorem Kernel.Fresh.prioritized (fresh : start.Fresh) : start.Prioritized := by
  refine ⟨fresh.sound, ?_⟩
  rintro waiter owner ⟨lock, owned, -⟩
  simp [lockTable, fresh.rtMutexes] at owned

/-- In an orderly run every owner is as urgent as those that wait for it, also through
other locks; a further step keeps this exactly if it is orderly. -/
theorem orderly_run_inherits (fresh : start.Fresh) (run : Run (fun before label after =>
      RtStep Unprioritized before label after ∧ label.Orderly before) start trace kernel) :
    (∀ waiter owner, Relation.TransGen kernel.lockTable.WaitsFor waiter owner →
      (kernel.procs owner).priority ≤ (kernel.procs waiter).priority) ∧
    ∀ label after, RtStep Unprioritized kernel label after →
      ((∀ waiter owner, after.lockTable.WaitsFor waiter owner →
        (after.procs owner).priority ≤ (after.procs waiter).priority) ↔ label.Orderly kernel) := by
  have prioritized : kernel.Prioritized := run.invariant fresh.prioritized
    fun _ _ _ prioritized step => ⟨step.1.undisturbed.sound prioritized.sound,
      (step.1.inherits_iff prioritized.sound prioritized.inherits).mpr step.2⟩
  refine ⟨fun waiter owner chain => prioritized.inherits.trans chain, fun label after step => ?_⟩
  exact step.inherits_iff prioritized.sound prioritized.inherits

def blocked : List (Nat × RtOp) := [(2, .rtMutexLock 0), (1, .rtMutexLock 0)]

theorem blocked_orderly : Turns (fun kernel label => label.Orderly kernel) rankedKernel blocked := by
  refine ⟨rfl, rfl, trivial, ⟨(mayTake_iff rfl).mpr nofun, mayRaise_of_free rfl⟩,
    rfl, rfl, trivial, ⟨mayTake_of_owned rfl, (mayRaise_iff rfl).mpr ?_⟩, trivial⟩
  rintro - other ⟨lock, -, queued⟩
  -- the only lock in use so far has no waiters
  have queued : 2 ∈ (update rankedKernel.rtMutexes 0 { owner := some 2, waitList := [] }
    lock).waitList := queued
  by_cases same : lock = 0
  · subst same
    cases queued
  · rw [update_of_ne same] at queued
    cases queued

theorem orderly_run_inherits_blocked :
    (rankedKernel.turns blocked).lockTable.WaitsFor 1 2 ∧
    ((rankedKernel.turns blocked).procs 2).priority ≤ ((rankedKernel.turns blocked).procs 1).priority :=
  have waits : (rankedKernel.turns blocked).lockTable.WaitsFor 1 2 :=
    ⟨0, rfl, mem_singleton.mpr rfl⟩
  ⟨waits, (orderly_run_inherits rankedKernel_fresh blocked_orderly.run).1 1 2 (.single waits)⟩

/-- Process 3 takes the lock that process 2 gave back before process 1 runs. -/
def barging : List (Nat × RtOp) :=
  [(2, .rtMutexLock 0), (1, .rtMutexLock 0), (2, .rtMutexUnlock 0), (3, .rtMutexTrylock 0 1)]

/-- Process 1 waits for process 2, which already waits for process 3. -/
def chained : List (Nat × RtOp) :=
  [(3, .rtMutexLock 0), (2, .rtMutexLock 1), (2, .rtMutexLock 0), (1, .rtMutexLock 1)]

theorem barging_turns : Turns (fun _ _ => True) rankedKernel barging :=
  ⟨rfl, rfl, trivial, trivial, rfl, rfl, trivial, trivial, rfl, rfl, trivial, trivial, rfl, rfl, trivial,
    trivial, trivial⟩

theorem chained_turns : Turns (fun _ _ => True) rankedKernel chained :=
  ⟨rfl, rfl, trivial, trivial, rfl, rfl, trivial, trivial, rfl, rfl, trivial, trivial, rfl, rfl, trivial,
    trivial, trivial⟩

/-- A new owner is not raised for those that wait already, and nobody behind a
blocked owner is raised. -/
theorem barging_and_chained_owners_not_raised :
    rankedKernel.Fresh ∧
    (∃ trace, Run (RtStep Unprioritized) rankedKernel trace (rankedKernel.turns barging)) ∧
    (rankedKernel.turns barging).lockTable.WaitsFor 1 3 ∧
    ((rankedKernel.turns barging).procs 1).priority < ((rankedKernel.turns barging).procs 3).priority ∧
    (∃ trace, Run (RtStep Unprioritized) rankedKernel trace (rankedKernel.turns chained)) ∧
    (rankedKernel.turns chained).lockTable.WaitsFor 2 3 ∧
    ((rankedKernel.turns chained).procs 2).priority < ((rankedKernel.turns chained).procs 3).priority := by
  refine ⟨rankedKernel_fresh, ⟨_, barging_turns.run.mono fun _ _ _ step => step.1⟩,
    ⟨0, rfl, mem_singleton.mpr rfl⟩, by decide +kernel,
    ⟨_, chained_turns.run.mono fun _ _ _ step => step.1⟩, ⟨0, rfl, mem_singleton.mpr rfl⟩,
    by decide +kernel⟩

end Rucix.Sched
