import Mathlib.Data.Finset.Prod
import Mathlib.Data.Fintype.Basic
import Rucix.Fs.OpenFiles.Sharing

namespace Rucix.Fs

open Rucix.Data Rucix.Ipc Function List

theorem FdTable.freeSlots_vacant {table : FdTable} {fd : Fin maxFiles} (free : fd ∈ table.freeSlots) :
    table fd = none := by
  have unused := (mem_filter.mp free).2
  exact Option.isNone_iff_eq_none.mp unused

theorem FdTable.freeSlots_nodup (table : FdTable) : table.freeSlots.Nodup :=
  (nodup_finRange maxFiles).filter _

theorem FdTable.freeSlots_pair {table : FdTable} {fd0 fd1 : Fin maxFiles} {others : List (Fin maxFiles)}
    (free : table.freeSlots = fd0 :: fd1 :: others) : table fd0 = none ∧ table fd1 = none ∧ fd1 ≠ fd0 := by
  have first : fd0 ∈ table.freeSlots := free ▸ mem_cons_self
  have second : fd1 ∈ table.freeSlots := free ▸ mem_cons_of_mem _ mem_cons_self
  have distinct := table.freeSlots_nodup
  rw [free, nodup_cons] at distinct
  exact ⟨freeSlots_vacant first, freeSlots_vacant second,
    fun same => distinct.1 (same ▸ mem_cons_self)⟩

namespace Sharing

variable {sharing : Sharing} {addr : Nat} {file : File}

/-- The count of every allocated file is its number of descriptors, and the files without
descriptors are those that are not allocated. -/
def Counted (sharing : Sharing) : Prop :=
  ∀ addr, (∀ file, sharing.files addr = some file → file.fCount = sharing.references addr) ∧
    (sharing.files addr = none ↔ sharing.references addr = 0)

theorem Counted.add (counted : sharing.Counted) (raised : file.fCount = sharing.references addr + 1) :
    (sharing.add addr file).Counted := by
  intro target
  by_cases same : target = addr
  · subst same
    simp [Sharing.add, raised]
  · simpa [Sharing.add, same] using counted target

theorem Counted.close (counted : sharing.Counted) (found : sharing.files addr = some file) :
    (sharing.close addr file).Counted := by
  intro target
  by_cases same : target = addr
  · subst same
    have count := (counted target).1 file found
    simp only [Sharing.close, update_self]
    split
    · exact ⟨by simp, iff_of_true rfl (by omega)⟩
    · refine ⟨?_, iff_of_false (by simp) (by omega)⟩
      rintro _ ⟨⟩
      simp only
      omega
  · simpa [Sharing.close, same] using counted target

/-- The two ends are added one after the other. -/
theorem addPipe_eq (readerZero : sharing.references reader = 0) (writerZero : sharing.references writer = 0)
    (different : writer ≠ reader) :
    sharing.addPipe pipe reader writer 1 =
      ({ sharing with pipes := update sharing.pipes pipe (some Ipc.pipeCreate) }.add reader
        { fOp := .pipe pipe .rdonly, fCount := 1 }).add writer { fOp := .pipe pipe .wronly, fCount := 1 } := by
  simp [addPipe, add, readerZero, writerZero, different]

theorem Counted.addPipe (counted : sharing.Counted) (readerZero : sharing.references reader = 0)
    (writerZero : sharing.references writer = 0) (different : writer ≠ reader) :
    (sharing.addPipe pipe reader writer 1).Counted := by
  have plain : Counted { sharing with pipes := update sharing.pipes pipe (some Ipc.pipeCreate) } := counted
  rw [addPipe_eq readerZero writerZero different]
  refine (plain.add ?_).add ?_
  · simp [readerZero]
  · simp [Sharing.add, different, writerZero]

end Sharing

namespace OpenFiles

variable {state : OpenFiles} {pid addr : Nat} {fd : Fin maxFiles} {file : File}

def references (state : OpenFiles) (addr : Nat) : Nat :=
  Data.references (state.pids ×ˢ Finset.univ) (fun slot => state.fdTable slot.1 slot.2) addr

/-- The count of every allocated file is its number of descriptors, and the
files without a descriptor are exactly those that are not allocated. -/
structure RefCounted (state : OpenFiles) : Prop where
  count : ∀ addr file, state.files addr = some file → file.fCount = state.references addr
  freed : ∀ addr, state.files addr = none ↔ state.references addr = 0

theorem setSlot_fdTable (state : OpenFiles) (pid : Nat) (file : Option Nat) :
    (fun slot : Nat × Fin maxFiles => (state.setSlot pid fd file).fdTable slot.1 slot.2) =
      update (fun slot : Nat × Fin maxFiles => state.fdTable slot.1 slot.2) (pid, fd) file := by
  funext slot
  obtain ⟨owner, index⟩ := slot
  by_cases process : owner = pid
  · subst process
    by_cases descriptor : index = fd
    · subst descriptor
      simp [setSlot]
    · simp [setSlot, descriptor]
  · simp [setSlot, process]

def sharing (state : OpenFiles) : Sharing where
  files := state.files
  pipes := state.pipes
  references := state.references

theorem refCounted_iff : state.RefCounted ↔ state.sharing.Counted :=
  ⟨fun counted addr => ⟨counted.count addr, counted.freed addr⟩,
    fun counted => ⟨fun addr => (counted addr).1, fun addr => (counted addr).2⟩⟩

theorem release_eq : state.release ops = { state with pipes := state.sharing.released ops } := by
  cases ops with
  | inode => rfl
  | pipe pipe flags =>
    simp only [release, Sharing.released, sharing]
    cases state.pipes pipe <;> rfl

theorem vfsCloseFd_pids (state : OpenFiles) : (state.vfsCloseFd pid fd).2.pids = state.pids := by
  unfold vfsCloseFd
  split
  · rfl
  · simp only [release_eq]
    split <;> rfl

section

variable (member : pid ∈ state.pids)
include member

theorem references_setSlot (vacant : state.fdTable pid fd = none) :
    (state.setSlot pid fd (some addr)).references target =
      state.references target + if target = addr then 1 else 0 := by
  rw [references, setSlot_fdTable]
  have slot : (pid, fd) ∈ state.pids ×ˢ Finset.univ := by simpa using member
  exact references_fill slot vacant addr target

theorem references_clearSlot (stored : state.fdTable pid fd = some addr) (target : Nat) :
    (state.setSlot pid fd none).references target + (if target = addr then 1 else 0) =
      state.references target := by
  have slot : (pid, fd) ∈ state.pids ×ˢ Finset.univ := by simpa using member
  rw [references, setSlot_fdTable]
  exact references_clear slot stored

theorem references_pos (stored : state.fdTable pid fd = some addr) :
    0 < state.references addr := by
  have slot : (pid, fd) ∈ state.pids ×ˢ Finset.univ := by simpa using member
  exact Data.references_pos slot stored

theorem sharing_add (vacant : state.fdTable pid fd = none) :
    ((state.setFile addr (some file)).setSlot pid fd (some addr)).sharing =
      state.sharing.add addr file := by
  have references : ((state.setFile addr (some file)).setSlot pid fd (some addr)).references =
      update state.references addr (state.references addr + 1) := by
    funext target
    have counted : ((state.setFile addr (some file)).setSlot pid fd (some addr)).references target =
        state.references target + if target = addr then 1 else 0 :=
      references_setSlot member vacant
    rw [counted]
    by_cases here : target = addr
    · subst here
      rw [if_pos rfl, update_self]
    · rw [if_neg here, update_of_ne here, Nat.add_zero]
  exact congrArg (Sharing.mk _ _) references

theorem sharing_close (stored : state.fdTable pid fd = some addr)
    (found : state.files addr = some file) :
    (state.vfsCloseFd pid fd).2.sharing = state.sharing.close addr file := by
  have references : (state.setSlot pid fd none).references =
      update state.references addr (state.references addr - 1) := by
    funext target
    have cleared := references_clearSlot member stored target
    by_cases here : target = addr
    · subst here
      rw [if_pos rfl] at cleared
      rw [update_self]
      omega
    · rw [if_neg here] at cleared
      rw [update_of_ne here]
      exact cleared
  have kept : (state.setSlot pid fd none).files addr = some file := found
  simp only [vfsCloseFd, stored, kept, release_eq]
  exact congrArg (Sharing.mk _ _) references

/-! What the calls within a process do to the sharing, and that they keep the counts. -/

theorem vfsOpen_sharing (resolve opened : Int) {file : Option Nat}
    (tracked : ∀ addr, state.files addr = none → state.references addr = 0)
    (fresh : ∀ addr ∈ file, state.files addr = none) :
    state.sharing.Change none (state.vfsOpen pid resolve file opened).2.sharing ∧
      (state.sharing.Counted → (state.vfsOpen pid resolve file opened).2.sharing.Counted) := by
  fun_cases OpenFiles.vfsOpen state pid resolve file opened with
  | case1 | case2 | case3 => exact ⟨.kept, id⟩
  | case4 _ _ addr made | case6 _ _ addr made =>
    have same : made.setFile addr none = state := by simp [made, setFile, ← fresh addr rfl]
    rw [same]
    exact ⟨.kept, id⟩
  | case5 _ _ addr _ _ fd _ slots =>
    have unused := fresh addr rfl
    rw [sharing_add member (FdTable.freeSlots_vacant (slots ▸ mem_cons_self))]
    refine ⟨.opened unused, fun counted => counted.add ?_⟩
    change (1 : Int) = state.references addr + 1
    rw [tracked addr unused]
    rfl

variable (tracked : ∀ addr, state.files addr = none → state.references addr = 0)
include tracked

theorem stored_of_slot (stored : state.fdTable pid fd = some addr) :
    ∃ file, state.files addr = some file ∧ 0 < state.references addr := by
  have used := references_pos member stored
  cases found : state.files addr with
  | none =>
    have unused := tracked addr found
    omega
  | some file => exact ⟨file, rfl, used⟩

theorem vfsDup_sharing (oldfd : Int) :
    state.sharing.Change none (state.vfsDup pid oldfd).2.sharing ∧
      (state.sharing.Counted → (state.vfsDup pid oldfd).2.sharing.Counted) := by
  unfold vfsDup
  split
  · split
    · exact ⟨.kept, id⟩
    · rename_i addr stored
      split
      · exact ⟨.kept, id⟩
      · rename_i fd others slots
        obtain ⟨file, found, used⟩ := stored_of_slot member tracked stored
        simp only [found, Option.map_some]
        rw [sharing_add member (FdTable.freeSlots_vacant (slots ▸ mem_cons_self))]
        refine ⟨.raised found used, fun counted => counted.add ?_⟩
        simp only [(counted addr).1 file found]
  · exact ⟨.kept, id⟩

theorem vfsCloseFd_sharing (fd : Fin maxFiles) :
    state.sharing.Change ((state.fdTable pid fd).bind state.files) (state.vfsCloseFd pid fd).2.sharing ∧
      (state.sharing.Counted → (state.vfsCloseFd pid fd).2.sharing.Counted) := by
  cases stored : state.fdTable pid fd with
  | none =>
    simp only [vfsCloseFd, stored]
    exact ⟨.kept, id⟩
  | some addr =>
    obtain ⟨file, found, used⟩ := stored_of_slot member tracked stored
    rw [sharing_close member stored found, Option.bind_some, found]
    exact ⟨.closed found used, fun counted => counted.close found⟩

/-- Without two free descriptors the pipe and its files stay allocated. -/
theorem pipeCreate_sharing (pipeFresh : ∀ addr ∈ pipe, state.pipes addr = none)
    (readerFresh : ∀ addr ∈ reader, state.files addr = none)
    (writerFresh : ∀ addr ∈ writer, state.files addr = none ∧ reader ≠ some addr) :
    state.sharing.Change none (state.pipeCreate pid pipe reader writer).2.sharing ∧
      ((pipe.isSome → reader.isSome → writer.isSome → 2 ≤ (state.fdTable pid).freeSlots.length) →
        state.sharing.Counted → (state.pipeCreate pid pipe reader writer).2.sharing.Counted) := by
  fun_cases OpenFiles.pipeCreate state pid pipe reader writer with
  | case1 pipe reader writer made opened both fd0 fd1 others free =>
    have readerUnused := readerFresh reader rfl
    obtain ⟨writerUnused, different⟩ := writerFresh writer rfl
    have apart : writer ≠ reader := fun same => different (by rw [same])
    have readerZero : state.sharing.references reader = 0 := tracked reader readerUnused
    have writerZero : state.sharing.references writer = 0 := tracked writer writerUnused
    obtain ⟨vacant0, vacant1, fdApart⟩ := FdTable.freeSlots_pair free
    let half := opened.setSlot pid fd0 (some reader)
    have first : half.sharing = made.sharing.add reader _ := sharing_add member vacant0
    have second : ((half.setFile writer (some { fOp := .pipe pipe .wronly, fCount := 1 })).setSlot pid fd1
        (some writer)).sharing = half.sharing.add writer _ :=
      sharing_add member (by simpa [half, both, setSlot, setFile, fdApart] using vacant1)
    have shape : ((both.setSlot pid fd0 (some reader)).setSlot pid fd1 (some writer)).sharing =
        state.sharing.addPipe pipe reader writer 1 := by
      rw [Sharing.addPipe_eq readerZero writerZero apart]
      exact second.trans (congrArg (Sharing.add · writer _) first)
    rw [shape]
    exact ⟨.piped (pipeFresh pipe rfl) readerUnused writerUnused apart le_rfl,
      fun _ counted => counted.addPipe readerZero writerZero apart⟩
  | case2 pipe reader writer made opened both short =>
    have readerUnused := readerFresh reader rfl
    obtain ⟨writerUnused, different⟩ := writerFresh writer rfl
    constructor
    · have leaked : state.sharing.Change none (state.sharing.addPipe pipe reader writer 0) :=
        .piped (pipeFresh pipe rfl) readerUnused writerUnused (fun same => different (by rw [same]))
          (Nat.zero_le 1)
      have references : update (update state.references reader 0) writer 0 = state.references := by
        rw [← tracked reader readerUnused, update_eq_self, tracked reader readerUnused,
          ← tracked writer writerUnused, update_eq_self]
      simp only [Sharing.addPipe, sharing] at leaked
      rw [references] at leaked
      exact leaked
    · intro room
      have slots := room rfl rfl rfl
      exfalso
      rcases free : (state.fdTable pid).freeSlots with _ | ⟨fd0, _ | ⟨fd1, others⟩⟩
      · simp [free] at slots
      · simp [free] at slots
      · exact short fd0 fd1 others free
  | case3 => exact ⟨.kept, fun _ counted => counted⟩

end

variable (counted : state.RefCounted)
include counted

/-- Forking is safe for a process without open files. -/
theorem RefCounted.processFork (fresh : ∀ pid ∈ child, pid ∉ state.pids)
    (empty : child.isSome → ∀ fd, state.fdTable pid fd = none) : (state.processFork pid child).RefCounted := by
  cases child with
  | none => exact counted
  | some child =>
    have unknown := fresh child rfl
    have vacant := empty rfl
    have references : (state.processFork pid (some child)).references = state.references := by
      funext addr
      refine references_extend ?_ ?_ ?_
      · exact Finset.product_subset_product_left (Finset.subset_insert ..)
      · rintro ⟨owner, fd⟩ listed
        have known : owner ∈ state.pids := (Finset.mem_product.mp listed).1
        have different : owner ≠ child := fun same => unknown (same ▸ known)
        simp [OpenFiles.processFork, different]
      · rintro ⟨owner, fd⟩ listed new
        have known := (Finset.mem_product.mp listed).1
        have same : owner = child := by
          rcases Finset.mem_insert.mp known with same | old
          · exact same
          · exact absurd (Finset.mem_product.mpr ⟨old, Finset.mem_univ fd⟩) new
        simp [OpenFiles.processFork, same, vacant]
    refine ⟨fun addr file found => ?_, fun addr => ?_⟩
    · rw [references]
      exact counted.count addr file found
    · rw [references]
      exact counted.freed addr

theorem RefCounted.tracked (addr : Nat) (unused : state.files addr = none) : state.references addr = 0 :=
  (counted.freed addr).mp unused

theorem RefCounted.vfsCloseFd (member : pid ∈ state.pids) (fd : Fin maxFiles) :
    (state.vfsCloseFd pid fd).2.RefCounted :=
  refCounted_iff.mpr ((vfsCloseFd_sharing member counted.tracked fd).2 (refCounted_iff.mp counted))

theorem RefCounted.processExit (member : pid ∈ state.pids) : (state.processExit pid).RefCounted := by
  have closes : ∀ (fds : List (Fin maxFiles)) (state : OpenFiles), state.RefCounted →
      pid ∈ state.pids →
      (fds.foldl (fun state fd =>
        if (state.fdTable pid fd).isSome then (state.vfsCloseFd pid fd).2 else state) state).RefCounted := by
    intro fds
    induction fds with
    | nil => exact fun state counted _ => counted
    | cons fd rest ih =>
      intro state counted member
      rw [foldl_cons]
      split
      · exact ih _ (counted.vfsCloseFd member fd) (vfsCloseFd_pids state ▸ member)
      · exact ih _ counted member
  exact closes _ state counted member

omit counted in
theorem initial_refCounted (pids : Finset Nat) : (OpenFiles.initial pids).RefCounted := by
  have unused : ∀ addr, (OpenFiles.initial pids).references addr = 0 := fun addr =>
    references_eq_zero.mpr fun _ _ stored => by cases stored
  refine ⟨fun addr file found => ?_, fun addr => ⟨fun _ => unused addr, fun _ => rfl⟩⟩
  cases found

end OpenFiles

/-- The calls that keep the counts: a process forks only without open files,
and creates a pipe only with two free descriptors. -/
def FileOp.Balanced (state : OpenFiles) : FileOp → Prop
  | .pipeCreate pid pipe reader writer =>
    pipe.isSome → reader.isSome → writer.isSome → 2 ≤ (state.fdTable pid).freeSlots.length
  | .processFork pid child => child.isSome → ∀ fd, state.fdTable pid fd = none
  | _ => True

theorem OpenFiles.RefCounted.step {after : OpenFiles} (counted : before.RefCounted)
    (stepped : FileStep before op after) (balanced : op.Balanced before) : after.RefCounted := by
  obtain ⟨member, fresh, rfl⟩ := stepped
  have shared := refCounted_iff.mp counted
  cases op with
  | vfsOpen pid resolve file opened =>
    exact refCounted_iff.mpr ((vfsOpen_sharing member resolve opened counted.tracked fresh).2 shared)
  | vfsClose pid fd =>
    change (before.vfsClose pid fd).2.RefCounted
    unfold vfsClose
    split
    · exact counted.vfsCloseFd member _
    · exact counted
  | vfsDup pid oldfd => exact refCounted_iff.mpr ((vfsDup_sharing member counted.tracked oldfd).2 shared)
  | pipeCreate pid pipe reader writer =>
    exact refCounted_iff.mpr
      ((pipeCreate_sharing member counted.tracked fresh.1 fresh.2.1 fresh.2.2).2 balanced shared)
  | processFork pid child => exact counted.processFork fresh balanced
  | processExit pid => exact counted.processExit member

/-- The count of a file is its number of descriptors, a file is freed with its last
descriptor, and no descriptor refers to a freed file. -/
theorem open_files_counted {pids : Finset Nat} {trace : List FileOp} {state : OpenFiles}
    (run : Run (fun before op after => FileStep before op after ∧ op.Balanced before)
      (OpenFiles.initial pids) trace state) :
    (∀ addr file, state.files addr = some file → file.fCount = state.references addr) ∧
    (∀ pid fd addr, pid ∈ state.pids → state.fdTable pid fd = some addr →
      state.files addr ≠ none) ∧
    ∀ op after, FileStep state op after → op.Balanced state → ∀ addr,
      (state.files addr ≠ none ∧ after.files addr = none) ↔
        (state.references addr ≠ 0 ∧ after.references addr = 0) := by
  have counted : state.RefCounted :=
    run.invariant (OpenFiles.initial_refCounted pids) fun _ _ _ before stepped =>
      before.step stepped.1 stepped.2
  refine ⟨counted.count, fun pid fd addr member stored => ?_, fun op after stepped balanced addr => ?_⟩
  · obtain ⟨file, found, -⟩ := OpenFiles.stored_of_slot member counted.tracked stored
    rw [found]
    exact Option.some_ne_none file
  · have afterCounted := counted.step stepped balanced
    rw [ne_eq, counted.freed, afterCounted.freed]

def openDupClose : List FileOp := [.vfsOpen 1 0 (some 7) 0, .vfsDup 1 0, .vfsClose 1 0]

theorem open_files_counted_dup :
    ∃ state, Run (fun before op after => FileStep before op after ∧ op.Balanced before)
        (OpenFiles.initial {1}) openDupClose state ∧
      state.fdTable 1 1 = some 7 ∧ state.files 7 ≠ none := by
  have run : Run (fun before op after => FileStep before op after ∧ op.Balanced before)
      (OpenFiles.initial {1}) openDupClose _ :=
    Run.of_performs ⟨⟨⟨by decide, by simp [FileOp.Fresh, OpenFiles.initial], rfl⟩, trivial⟩,
      ⟨⟨by decide, trivial, rfl⟩, trivial⟩, ⟨⟨by decide, trivial, rfl⟩, trivial⟩, trivial⟩
  have slot : (openDupClose.foldl FileOp.apply (OpenFiles.initial {1})).fdTable 1 1 = some 7 := by
    decide +kernel
  exact ⟨_, run, slot, (open_files_counted run).2.1 1 1 7 (by decide +kernel) slot⟩

def forkThenExit : List FileOp := [.vfsOpen 1 0 (some 7) 0, .processFork 1 (some 2), .processExit 1]

/-- The child of a fork is left with a descriptor for a freed file. -/
theorem fork_then_exit_frees_shared_file :
    ∃ state, Run FileStep (OpenFiles.initial {1}) forkThenExit state ∧ 2 ∈ state.pids ∧
      state.fdTable 2 0 = some 7 ∧ state.files 7 = none := by
  have run : Run FileStep (OpenFiles.initial {1}) forkThenExit _ :=
    Run.of_performs ⟨⟨by decide, by simp [FileOp.Fresh, OpenFiles.initial], rfl⟩,
      ⟨by decide, fun child new => by cases new; decide +kernel, rfl⟩,
      ⟨by decide, trivial, rfl⟩, trivial⟩
  exact ⟨_, run, by decide +kernel, by decide +kernel, by decide +kernel⟩

end Rucix.Fs
