import Rucix.Sched.RunQueues

namespace Rucix.Sched

open Rucix.Data

/-! Every operation of the kernel keeps the run queues and the states of the
processes in step, as long as only detached processes are made ready. -/

namespace Kernel

variable {kernel after : Kernel} {pid fuel : Nat} {items : Place → List Nat} {proc : Process}

def Consistent (kernel : Kernel) : Prop := ∃ items, kernel.Queued items none

theorem waitingOn_beside : Beside Process.waitingOn := ⟨fun _ _ => rfl, fun _ _ => rfl⟩

/-- The run queues stay in step, and neither the sleep queue nor the times for which the
processes wait change. -/
structure LeavesSleepers (kernel after : Kernel) : Prop where
  queued : ∀ items, kernel.Queued items none →
    ∃ newItems, after.Queued newItems none ∧ newItems .sleep = items .sleep
  kept : Kept Process.waitingOn kernel after

namespace LeavesSleepers

theorem trans (first : LeavesSleepers kernel middle) (second : LeavesSleepers middle after) :
    LeavesSleepers kernel after := by
  refine ⟨fun items queued => ?_, first.kept.trans second.kept⟩
  obtain ⟨middleItems, queued, middleSleepers⟩ := first.queued items queued
  obtain ⟨newItems, queued, sleepers⟩ := second.queued middleItems queued
  exact ⟨newItems, queued, sleepers.trans middleSleepers⟩

theorem of_queues (same : SameQueues kernel after) (kept : Kept Process.waitingOn kernel after) :
    LeavesSleepers kernel after :=
  ⟨fun items queued => ⟨items, queued.congr same, rfl⟩, kept⟩

theorem refl : LeavesSleepers kernel kernel :=
  ⟨fun items queued => ⟨items, queued, rfl⟩, .refl⟩

theorem makeReady (detached : kernel.Detached pid) (done : kernel.makeReady fuel pid = some after) :
    LeavesSleepers kernel after where
  queued _ queued := queued.makeReady detached done
  kept := (Kept.setState waitingOn_beside kernel pid .ready).trans (.enqueueProcess waitingOn_beside done)

theorem processSchedule (done : kernel.processSchedule fuel = some after) : LeavesSleepers kernel after where
  queued _ queued := queued.processSchedule done
  kept := by
    obtain ⟨middle, requeued, rfl⟩ := Option.map_eq_some_iff.mp done
    refine Kept.trans ?_ (.switchToNext waitingOn_beside)
    simp only [requeueCurrent] at requeued
    split at requeued
    · have marked := Kept.setState waitingOn_beside kernel kernel.current .ready
      refine (marked.trans ?_).trans (.enqueueProcess waitingOn_beside requeued)
      simp only [demote]
      split
      · exact .setProc rfl
      · exact .refl
    · cases requeued
      exact .refl

end LeavesSleepers

namespace Consistent

variable (consistent : kernel.Consistent)
include consistent

theorem leaving (leaves : LeavesSleepers kernel after) : after.Consistent := by
  obtain ⟨items, queued⟩ := consistent
  obtain ⟨newItems, queued, -⟩ := leaves.queued items queued
  exact ⟨newItems, queued⟩

theorem congr (same : SameQueues kernel after) : after.Consistent := by
  obtain ⟨items, queued⟩ := consistent
  exact ⟨items, queued.congr same⟩

theorem processSchedule (done : kernel.processSchedule fuel = some after) : after.Consistent :=
  consistent.leaving (.processSchedule done)

theorem makeReady (detached : kernel.Detached pid) (done : kernel.makeReady fuel pid = some after) :
    after.Consistent :=
  consistent.leaving (.makeReady detached done)

theorem block (detached : kernel.Detached pid) : (kernel.setState pid .blocked).Consistent := by
  obtain ⟨items, queued⟩ := consistent
  refine ⟨items, ((queued.hold (queued.detached_lt detached)
    (queued.detached pid detached)).setState_held .blocked).release ?_⟩
  simp [setState]

theorem terminate : (kernel.setState kernel.current .terminated).Consistent := by
  obtain ⟨items, queued⟩ := consistent
  exact ⟨items, queued.setProc (queued.toWired.congr (setState_nextReady ..) rfl rfl) (queued.classes _)
    queued.current_lt (by simp) (by simp)⟩

end Consistent

theorem Queued.enroll (queued : kernel.Queued items none) (mlfq : proc.schedClass = .mlfq) (processList : List Nat)
    (sync : SyncState) : ({ kernel.setProc kernel.nextPid proc with
        toSyncState := sync, processList, nextPid := kernel.nextPid + 1 } : Kernel).Queued items
      (some kernel.nextPid) := by
  have grown : ({ kernel with toSyncState := sync, processList, nextPid := kernel.nextPid + 1 } : Kernel).Queued
      items none :=
    ⟨⟨queued.lists, queued.tails⟩, queued.ready, queued.detached, nofun,
      fun other unborn => queued.unborn other (Nat.le_of_succ_le unborn), Nat.lt_succ_of_lt queued.current_lt,
      queued.classes⟩
  exact (grown.hold (Nat.lt_succ_self _) (queued.unborn kernel.nextPid le_rfl).2).setProc_held mlfq

theorem Consistent.addProcess (consistent : kernel.Consistent) (done : kernel.addProcess fuel proc = some after)
    (mlfq : proc.schedClass = .mlfq) : after.Consistent := by
  obtain ⟨items, queued⟩ := consistent
  obtain ⟨newItems, queued, -⟩ := (queued.enroll mlfq _ _).enqueueProcess done
  exact ⟨newItems, queued⟩

theorem Consistent.processFork (consistent : kernel.Consistent) (done : kernel.processFork fuel = some after) :
    after.Consistent := by
  have mlfq : (kernel.procs kernel.current).schedClass = .mlfq := by
    obtain ⟨items, queued⟩ := consistent
    exact queued.classes kernel.current
  exact consistent.addProcess done mlfq

/-- The processes that `sys_kill` signals. -/
def killTargets (kernel : Kernel) (pid sig : Int) : List Nat :=
  if ¬ (0 < sig ∧ sig < 32) then []
  else if 0 < pid then (kernel.getProcessByPid pid.toNat).toList
  else if pid = -1 then kernel.processList.filter fun pid => 1 < pid ∧ pid ≠ kernel.current
  else kernel.processList.filter fun other => (kernel.procs other).gid = kernel.killGroup pid

theorem sysKill_eq (kernel : Kernel) (target sig : Int) : ∃ status : Int, ∀ fuel, kernel.sysKill fuel target sig =
    (signalEach fuel sig.toNat kernel (kernel.killTargets target sig)).map (status, ·) := by
  have each : ∀ (status : Int) targets, ∃ code : Int, ∀ fuel,
      (do return (status, ← signalEach fuel sig.toNat kernel targets)) =
        (signalEach fuel sig.toNat kernel targets).map (code, ·) :=
    fun status targets => ⟨status, fun fuel => (Option.map_eq_bind ..).symm⟩
  simp only [sysKill, killTargets]
  by_cases valid : 0 < sig ∧ sig < 32
  · simp only [valid, and_self, not_true, if_false, if_true, true_and]
    split_ifs with single all some
    · cases kernel.getProcessByPid target.toNat with
      | none => exact ⟨-1, fun _ => rfl⟩
      | some pid =>
        refine ⟨0, fun fuel => ?_⟩
        cases signalled : kernel.signalTask fuel sig.toNat pid <;> simp [signalEach, signalled]
    · exact each _ _
    · exact each _ _
    · rw [not_not.mp some]
      exact ⟨-1, fun _ => rfl⟩
  · simp only [valid, not_false_iff, if_true, if_false, false_and]
    split_ifs
    · split <;> exact ⟨-1, fun _ => rfl⟩
    · exact ⟨0, fun _ => rfl⟩
    · exact ⟨-1, fun _ => rfl⟩

theorem sysKill_signals (done : kernel.sysKill fuel target sig = some (status, after)) :
    signalEach fuel sig.toNat kernel (kernel.killTargets target sig) = some after := by
  obtain ⟨code, same⟩ := kernel.sysKill_eq target sig
  rw [same] at done
  obtain ⟨final, signalled, returned⟩ := Option.map_eq_some_iff.mp done
  cases returned
  exact signalled

namespace LeavesSleepers

theorem signalTask (done : kernel.signalTask fuel sig pid = some after) : LeavesSleepers kernel after := by
  simp only [Kernel.signalTask] at done
  have same : SameQueues kernel (kernel.setProc pid
      { kernel.procs pid with
        pendingSignals := (kernel.procs pid).pendingSignals ||| (1#32 <<< sig) }) :=
    SameQueues.setProc rfl rfl rfl
  have marked := of_queues same (.setProc rfl)
  split at done
  · rename_i blocked
    exact marked.trans (makeReady (.inr ((same.state pid).trans blocked)) done)
  · cases done
    exact marked

theorem signalEach (done : Kernel.signalEach fuel sig kernel targets = some after) : LeavesSleepers kernel after := by
  induction targets generalizing kernel with
  | nil =>
    cases done
    exact refl
  | cons pid rest ih =>
    obtain ⟨middle, first, done⟩ := Option.bind_eq_some_iff.mp done
    exact (signalTask first).trans (ih done)

theorem sysKill (done : kernel.sysKill fuel target sig = some (status, after)) : LeavesSleepers kernel after :=
  signalEach (sysKill_signals done)

theorem enforceCpuLimit (done : kernel.enforceCpuLimit fuel = some after) : LeavesSleepers kernel after := by
  simp only [Kernel.enforceCpuLimit] at done
  split at done
  · obtain ⟨⟨status, final⟩, killed, rfl⟩ := Option.map_eq_some_iff.mp done
    exact sysKill killed
  · cases done
    exact refl

end LeavesSleepers

namespace Consistent

variable (consistent : kernel.Consistent)
include consistent

theorem sysKill (done : kernel.sysKill fuel target sig = some (status, after)) : after.Consistent :=
  consistent.leaving (.sysKill done)

theorem reparent : (kernel.reparent parent initProc).Consistent := by
  refine consistent.congr ⟨⟨fun pid => ?_, fun pid => ?_, rfl, rfl⟩, funext fun pid => ?_, rfl, rfl⟩
  all_goals
    simp only [Kernel.reparent, nextReady]
    split <;> rfl

theorem wakeParent (done : kernel.wakeParent fuel = some after) : after.Consistent := by
  simp only [Kernel.wakeParent] at done
  split at done
  · cases done
    exact consistent
  · split at done
    · rename_i blocked
      exact consistent.makeReady (.inr blocked) done
    · cases done
      exact consistent

theorem processExit (done : kernel.processExit fuel = some after) : after.Consistent := by
  obtain ⟨middle, woken, done⟩ := Option.bind_eq_some_iff.mp done
  exact ((consistent.reparent ..).wakeParent woken).terminate.processSchedule done

end Consistent

end Kernel

end Rucix.Sched
