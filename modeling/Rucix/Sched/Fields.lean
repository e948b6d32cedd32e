import Rucix.Sched.Model

namespace Rucix.Sched.Kernel

/-! Fields of the processes that the scheduler does not write, given by a view of a
process.
-/

variable {α : Type} {view : Process → α} {kernel after : Kernel} {pid fuel : Nat}

@[simp]
theorem setProc_procs :
    (kernel.setProc pid proc).procs other = if other = pid then proc else kernel.procs other := by
  by_cases same : other = pid
  · subst same
    simp [setProc]
  · simp [setProc, same]

theorem setProc_view (same : view proc = view (kernel.procs pid)) (other : Nat) :
    view ((kernel.setProc pid proc).procs other) = view (kernel.procs other) := by
  rw [setProc_procs]
  split
  · rename_i here
    rw [same, here]
  · rfl

/-- A pick clears the link of the process; the rest concerns the heads and tails. -/
theorem pickNextTaskMlfq_eq (picked : kernel.pickNextTaskMlfq = some (next, after)) :
    ∃ mlfqQueues mlfqTails,
      after = { kernel.setNextReady next none with mlfqQueues, mlfqTails } := by
  simp only [pickNextTaskMlfq] at picked
  split at picked
  · cases picked
  · split at picked
    · cases picked
    · cases picked
      exact ⟨_, _, rfl⟩

theorem pickNextTask_eq (picked : kernel.pickNextTask = some (next, after)) :
    ∃ mlfqQueues mlfqTails cfsQueue,
      after = { kernel.setNextReady next none with mlfqQueues, mlfqTails, cfsQueue } := by
  simp only [pickNextTask] at picked
  split at picked
  · rename_i found
    cases picked
    obtain ⟨queues, tails, rfl⟩ := pickNextTaskMlfq_eq found
    exact ⟨_, _, _, rfl⟩
  · simp only [pickNextTaskFair] at picked
    split at picked
    · cases picked
    · cases picked
      exact ⟨_, _, _, rfl⟩

/-- The view does not look at the state and the link. -/
structure Beside (view : Process → α) : Prop where
  state : ∀ proc state, view { proc with state } = view proc
  nextReady : ∀ proc nextReady, view { proc with nextReady } = view proc

/-- The view of every process and the time are the same. -/
structure Kept (view : Process → α) (before after : Kernel) : Prop where
  fields : ∀ pid, view (after.procs pid) = view (before.procs pid)
  globalTicks : after.globalTicks = before.globalTicks

namespace Kept

theorem refl : Kept view kernel kernel := ⟨fun _ => rfl, rfl⟩

theorem trans (first : Kept view kernel middle) (second : Kept view middle after) : Kept view kernel after :=
  ⟨fun pid => (second.fields pid).trans (first.fields pid), second.globalTicks.trans first.globalTicks⟩

theorem of_procs (kept : Kept view kernel middle) (procs : after.procs = middle.procs)
    (globalTicks : after.globalTicks = middle.globalTicks) : Kept view kernel after :=
  ⟨fun pid => by rw [procs, kept.fields], globalTicks.trans kept.globalTicks⟩

theorem setProc (same : view proc = view (kernel.procs pid)) : Kept view kernel (kernel.setProc pid proc) :=
  ⟨setProc_view same, rfl⟩

variable (beside : Beside view)
include beside

theorem setState (kernel : Kernel) (pid : Nat) (state : ProcessState) :
    Kept view kernel (kernel.setState pid state) :=
  setProc (beside.state ..)

theorem setNextReady (kernel : Kernel) (pid : Nat) (link : Option Nat) :
    Kept view kernel (kernel.setNextReady pid link) :=
  setProc (beside.nextReady ..)

theorem enqueueTaskMlfq (kernel : Kernel) (pid : Nat) : Kept view kernel (kernel.enqueueTaskMlfq pid) := by
  have marked := (setState beside kernel pid .ready).trans (setNextReady beside _ pid none)
  simp only [Kernel.enqueueTaskMlfq]
  split
  · exact marked.of_procs rfl rfl
  · exact marked
  · rename_i tail _ _
    exact (marked.trans (setNextReady beside _ tail (some pid))).of_procs rfl rfl

theorem enqueueTaskFair (done : kernel.enqueueTaskFair fuel pid = some after) : Kept view kernel after := by
  obtain ⟨link, -, done⟩ := Option.bind_eq_some_iff.mp done
  have marked := setState beside kernel pid .ready
  cases link with
  | none =>
    cases done
    exact (marked.trans (setNextReady beside _ pid _)).of_procs rfl rfl
  | some before =>
    cases done
    exact (marked.trans (setNextReady beside _ pid _)).trans (setNextReady beside _ before _)

theorem enqueueProcess (done : kernel.enqueueProcess fuel pid = some after) : Kept view kernel after := by
  simp only [Kernel.enqueueProcess] at done
  split at done
  · cases done
    exact refl
  · split at done
    · cases done
      exact enqueueTaskMlfq beside kernel pid
    · exact enqueueTaskFair beside done

theorem pickNextTask (picked : kernel.pickNextTask = some (next, after)) : Kept view kernel after := by
  obtain ⟨queues, tails, fair, rfl⟩ := pickNextTask_eq picked
  exact (setNextReady beside kernel next none).of_procs rfl rfl

theorem switchToNext : Kept view kernel kernel.switchToNext := by
  simp only [Kernel.switchToNext]
  split
  · rename_i next chosen picked
    exact ((pickNextTask beside picked).trans (setState beside chosen next .running)).of_procs rfl rfl
  · split
    · exact setState beside kernel _ .running
    · exact refl

end Kept

end Rucix.Sched.Kernel
