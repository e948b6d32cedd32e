import Rucix.Block.Model

namespace Rucix.Block

open Function

/-! Completion of bios, for submissions to any disks interleaved in any way with
the turns of the drivers.

A bio that gets into a request is never completed: `ahci_request` frees the
request and forgets its bios.
-/

variable {bio : Bio} {alloc : Bool} {store : Store}

structure BlockSystem where
  disks : Nat → Option Gendisk
  store : Store
  submitted : Nat
  completed : Nat → Nat

inductive BlockEvent where
  | submit (disk : Option Nat) (bio : Bio) (alloc : Bool)
  | turn (disk : Nat) (hasPrivate : Bool)

namespace BlockSystem

def submit (system : BlockSystem) (disk : Option Nat) (bio : Bio) (alloc : Bool) : BlockSystem :=
  let tagged := { bio with tag := system.submitted }
  let (after, store, ended) := submitBio (disk.bind system.disks) tagged alloc system.store
  { disks := match disk with
      | none => system.disks
      | some addr => update system.disks addr after
    store
    submitted := system.submitted + 1
    completed := update system.completed system.submitted
      (system.completed system.submitted + ended) }

def turn (system : BlockSystem) (disk : Nat) (hasPrivate : Bool) : BlockSystem :=
  match system.disks disk with
  | none => system
  | some gendisk =>
    match gendisk.queue with
    | none => system
    | some q =>
      let (q, store) := ahciTurn hasPrivate q system.store
      { system with
        disks := update system.disks disk (some { gendisk with queue := some q }), store }

def perform (system : BlockSystem) : BlockEvent → BlockSystem
  | .submit disk bio alloc => system.submit disk bio alloc
  | .turn disk hasPrivate => system.turn disk hasPrivate

def performAll (system : BlockSystem) (events : List BlockEvent) : BlockSystem :=
  events.foldl perform system

/-- Nothing has been submitted yet; the disks and their queues are arbitrary. -/
def Unused (system : BlockSystem) : Prop :=
  ∀ tag, system.submitted ≤ tag → system.completed tag = 0

def Drained (system : BlockSystem) : Prop :=
  ∀ addr gendisk q, system.disks addr = some gendisk → gendisk.queue = some q → q.queue = []

end BlockSystem

def Unmergeable (q : RequestQueue) (bio : Bio) : Prop :=
  q.elevator = none ∨ ∀ request ∈ q.queue, (request.sector + request.nrSectors) % 2 ^ 64 ≠ bio.sector

/-- The disk has no queue to put the bio into, serves it at once, or has no memory
for a request that the bio needs. -/
def EndsAtOnce (disk : Option Gendisk) (bio : Bio) (alloc : Bool) : Prop :=
  ∀ gendisk q, disk = some gendisk → gendisk.queue = some q → q.makeRequestFn = some .elevator →
    Unmergeable q bio ∧ alloc = false

theorem mergeFirst_eq_none : mergeFirst merge bio queue = none ↔ ∀ request ∈ queue, merge request bio = none := by
  induction queue with
  | nil => simp [mergeFirst]
  | cons request rest ih =>
    cases merged : merge request bio with
    | none => simp [mergeFirst, merged, ih]
    | some joined => simp [mergeFirst, merged]

theorem mergeReq_eq_none :
    mergeReq request bio = none ↔ (request.sector + request.nrSectors) % 2 ^ 64 ≠ bio.sector := by
  rw [mergeReq]
  split
  · rename_i adjacent
    exact iff_of_false (Option.some_ne_none _) fun apart => apart adjacent
  · rename_i apart
    exact iff_of_true rfl apart

theorem Elevator.mergeFn_eq (elevator : Elevator) : elevator.mergeFn = mergeReq := by
  cases elevator <;> rfl

theorem elvMergeBio_eq_none : elvMergeBio q bio = none ↔ Unmergeable q bio := by
  cases found : q.elevator with
  | none => simp [elvMergeBio, Unmergeable, found]
  | some elevator =>
    simp [elvMergeBio, Unmergeable, found, elevator.mergeFn_eq, mergeFirst_eq_none, mergeReq_eq_none]

theorem makeRequest_ended : (makeRequest q bio alloc).2 = true ↔ Unmergeable q bio ∧ alloc = false := by
  rw [makeRequest, ← elvMergeBio_eq_none]
  cases elvMergeBio q bio with
  | none => cases alloc <;> simp
  | some merged => simp

theorem endsAtOnce_some : EndsAtOnce (some gendisk) bio alloc ↔
    ∀ q, gendisk.queue = some q → q.makeRequestFn = some .elevator → Unmergeable q bio ∧ alloc = false := by
  constructor
  · exact fun ends q attached => ends gendisk q rfl attached
  · intro ends other q same attached
    cases same
    exact ends q attached

theorem submitBio_ended : (submitBio disk bio alloc store).2.2 = 1 ↔ EndsAtOnce disk bio alloc := by
  cases disk with
  | none => simp [submitBio, EndsAtOnce]
  | some gendisk =>
    cases attached : gendisk.queue with
    | none => simp [submitBio, endsAtOnce_some, attached]
    | some q =>
      cases kind : q.makeRequestFn with
      | none => simp [submitBio, endsAtOnce_some, attached, kind]
      | some make =>
        cases make with
        | ramdisk => simp [submitBio, endsAtOnce_some, attached, kind]
        | elevator =>
          have ended : EndsAtOnce (some gendisk) bio alloc ↔ Unmergeable q bio ∧ alloc = false := by
            simp [endsAtOnce_some, attached, kind]
          rw [ended, ← makeRequest_ended]
          simp only [submitBio, attached, kind]
          cases (makeRequest q bio alloc).2 <;> simp

namespace BlockSystem

variable {system : BlockSystem} {events : List BlockEvent} {tag : Nat}

theorem submitted_turn (system : BlockSystem) :
    (system.turn disk hasPrivate).submitted = system.submitted ∧
      (system.turn disk hasPrivate).completed = system.completed := by
  rw [turn]
  split
  · exact ⟨rfl, rfl⟩
  · split
    · exact ⟨rfl, rfl⟩
    · exact ⟨rfl, rfl⟩

/-- No event calls `end_io` for a bio submitted before it. -/
theorem completed_perform (earlier : tag < system.submitted) :
    (system.perform event).completed tag = system.completed tag ∧ tag < (system.perform event).submitted := by
  cases event with
  | submit disk bio alloc =>
    exact ⟨update_of_ne (Nat.ne_of_lt earlier) _ _, Nat.lt_succ_of_lt earlier⟩
  | turn disk hasPrivate =>
    obtain ⟨submitted, completed⟩ := system.submitted_turn
    exact ⟨congrFun completed tag, by rw [perform, submitted]; exact earlier⟩

theorem completed_performAll (earlier : tag < system.submitted) :
    (system.performAll events).completed tag = system.completed tag := by
  induction events generalizing system with
  | nil => rfl
  | cons event rest ih =>
    obtain ⟨same, still⟩ := completed_perform earlier
    exact (ih still).trans same

theorem Unused.perform (unused : system.Unused) : (system.perform event).Unused := by
  cases event with
  | submit disk bio alloc =>
    intro tag later
    have later : system.submitted + 1 ≤ tag := later
    have other : tag ≠ system.submitted := by omega
    exact (update_of_ne other _ _).trans (unused tag (by omega))
  | turn disk hasPrivate =>
    intro tag later
    obtain ⟨submitted, completed⟩ := system.submitted_turn
    rw [BlockSystem.perform, submitted] at later
    exact (congrFun completed tag).trans (unused tag later)

theorem Unused.performAll (unused : system.Unused) : (system.performAll events).Unused := by
  induction events generalizing system with
  | nil => exact unused
  | cons event rest ih => exact ih (unused.perform)

end BlockSystem

theorem endsAtOnce_tag : EndsAtOnce disk { bio with tag } alloc ↔ EndsAtOnce disk bio alloc := Iff.rfl

/-- The `end_io` of a bio has been called exactly once if and only if the bio was not
put into a request. -/
theorem bio_completed_once_iff {start : BlockSystem} (unused : start.Unused) (before later : List BlockEvent)
    (disk : Option Nat) (bio : Bio) (alloc : Bool) :
    (start.performAll (before ++ .submit disk bio alloc :: later)).completed
        (start.performAll before).submitted = 1 ↔
      EndsAtOnce (disk.bind (start.performAll before).disks) bio alloc := by
  have split : start.performAll (before ++ .submit disk bio alloc :: later) =
      ((start.performAll before).submit disk bio alloc).performAll later := by
    simp only [BlockSystem.performAll, List.foldl_append]
    rfl
  have none : (start.performAll before).completed (start.performAll before).submitted = 0 :=
    unused.performAll _ (Nat.le_refl _)
  have here : ((start.performAll before).submit disk bio alloc).completed
      (start.performAll before).submitted =
        (submitBio (disk.bind (start.performAll before).disks)
          { bio with tag := (start.performAll before).submitted } alloc
          (start.performAll before).store).2.2 := by
    refine (update_self ..).trans ?_
    rw [none, Nat.zero_add]
    rfl
  rw [split, BlockSystem.completed_performAll (Nat.lt_succ_self _), here, submitBio_ended, endsAtOnce_tag]

def ahciDisk : Gendisk := ⟨some ⟨some .noop, [], some .elevator⟩, 8⟩

def blankStore : Store := ⟨fun _ => 0, fun _ => 0⟩

def oneDisk : BlockSystem := ⟨update (fun _ => none) 1 (some ahciDisk), blankStore, 0, fun _ => 0⟩

def firstSector : Bio := ⟨0, 0, 512, [⟨4096, 512, 0⟩], read, 0⟩

theorem bio_completed_once_iff_unallocated :
    oneDisk.Unused ∧
    (oneDisk.performAll [.submit (some 1) firstSector false, .turn 1 true]).completed 0 = 1 := by
  have unused : oneDisk.Unused := fun _ _ => rfl
  refine ⟨unused, (bio_completed_once_iff unused [] [.turn 1 true] (some 1) firstSector false).mpr ?_⟩
  intro gendisk q found attached _
  cases found
  cases attached
  exact ⟨.inr nofun, rfl⟩

/-- The driver has served the request and drained the queue, and `end_io` has not
been called. -/
theorem served_bio_not_completed :
    (oneDisk.performAll [.submit (some 1) firstSector true, .turn 1 true]).Drained ∧
    (oneDisk.performAll [.submit (some 1) firstSector true, .turn 1 true]).completed 0 = 0 := by
  refine ⟨fun addr gendisk q found attached => ?_, rfl⟩
  by_cases here : addr = 1
  · subst here
    cases found
    cases attached
    rfl
  · have missing : (oneDisk.performAll [.submit (some 1) firstSector true, .turn 1 true]).disks addr =
        none := by
      simp [BlockSystem.performAll, BlockSystem.perform, BlockSystem.submit, BlockSystem.turn, oneDisk,
        submitBio, ahciDisk, here]
    cases missing.symm.trans found

end Rucix.Block
