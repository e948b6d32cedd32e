import Rucix.Fs.OpenFiles.Model

namespace Rucix.Fs

open Rucix.Data Rucix.Ipc Function

/-! Descriptors share a `struct file`, and the two files of a pipe share the pipe.

The calls are seen here by what they do to the files, the pipes and the number
of descriptors of each file.
-/

/-- `readers` or `writers`. -/
def opened (pipe : Pipe) : PipeFlags → Int
  | .rdonly => pipe.readers
  | .wronly => pipe.writers

def FileOps.pipeEnd : FileOps → Option (Nat × PipeFlags)
  | .inode => none
  | .pipe target flags => some (target, flags)

/-- The three levels of sharing, with the number of descriptors of each file. -/
structure Sharing where
  files : Nat → Option File
  pipes : Nat → Option Pipe
  references : Nat → Nat

namespace Sharing

def endAt (sharing : Sharing) (addr : Nat) : Option (Nat × PipeFlags) :=
  (sharing.files addr).bind fun file => file.fOp.pipeEnd

def IsOpen (sharing : Sharing) (pipe : Nat) (flags : PipeFlags) : Prop :=
  ∃ addr, sharing.endAt addr = some (pipe, flags) ∧ 0 < sharing.references addr

def EndsCounted (sharing : Sharing) : Prop :=
  ∀ pipe flags, sharing.IsOpen pipe flags →
    ∃ found, sharing.pipes pipe = some found ∧ 0 < opened found flags

def released (sharing : Sharing) : FileOps → Nat → Option Pipe
  | .inode => sharing.pipes
  | .pipe pipe flags =>
    match sharing.pipes pipe with
    | none => sharing.pipes
    | some found =>
      update sharing.pipes pipe
        (if (pipeClose found flags).2 then none else some (pipeClose found flags).1)

def close (sharing : Sharing) (addr : Nat) (file : File) : Sharing where
  files := update sharing.files addr
    (if file.fCount - 1 ≤ 0 then none else some { file with fCount := file.fCount - 1 })
  pipes := sharing.released file.fOp
  references := update sharing.references addr (sharing.references addr - 1)

def add (sharing : Sharing) (addr : Nat) (file : File) : Sharing where
  files := update sharing.files addr (some file)
  pipes := sharing.pipes
  references := update sharing.references addr (sharing.references addr + 1)

def addPipe (sharing : Sharing) (pipe reader writer count : Nat) : Sharing where
  files := update (update sharing.files reader
    (some { fOp := .pipe pipe .rdonly, fCount := 1 })) writer
    (some { fOp := .pipe pipe .wronly, fCount := 1 })
  pipes := update sharing.pipes pipe (some Ipc.pipeCreate)
  references := update (update sharing.references reader count) writer count

/-- What a call that closes a descriptor of the file `closing`, if any, does to
the sharing. -/
inductive Change (before : Sharing) : Option File → Sharing → Prop where
  | kept : Change before none before
  | opened {addr : Nat} (unused : before.files addr = none) :
      Change before none (before.add addr { fOp := .inode, fCount := 1 })
  | raised {addr : Nat} {file : File} (found : before.files addr = some file)
      (used : 0 < before.references addr) :
      Change before none (before.add addr { file with fCount := file.fCount + 1 })
  | piped {pipe reader writer count : Nat} (vacant : before.pipes pipe = none)
      (readerUnused : before.files reader = none) (writerUnused : before.files writer = none)
      (different : writer ≠ reader) (atMost : count ≤ 1) :
      Change before none (before.addPipe pipe reader writer count)
  | closed {addr : Nat} {file : File} (found : before.files addr = some file)
      (used : 0 < before.references addr) : Change before (some file) (before.close addr file)

/-- A descriptor of a pipe is closed only as the last one of its file. -/
def ClosesLast (closing : Option File) : Prop :=
  ∀ file ∈ closing, file.fOp ≠ .inode → file.fCount = 1

instance (closing : Option File) : Decidable (ClosesLast closing) :=
  inferInstanceAs (Decidable (∀ file ∈ closing, file.fOp ≠ .inode → file.fCount = 1))

structure Sound (sharing : Sharing) : Prop where
  counted : ∀ addr, 0 < sharing.references addr →
    ∃ file, sharing.files addr = some file ∧ file.fCount = sharing.references addr
  ends : ∀ addr pipe flags, sharing.endAt addr = some (pipe, flags) →
    ∃ found, sharing.pipes pipe = some found ∧ opened found flags = 1
  single : ∀ left right pipe flags, sharing.endAt left = some (pipe, flags) →
    sharing.endAt right = some (pipe, flags) → left = right
  held : ∀ pipe found flags, sharing.pipes pipe = some found →
    opened found flags = 0 ∨
      opened found flags = 1 ∧ ∃ addr, sharing.endAt addr = some (pipe, flags)
  live : ∀ pipe found, sharing.pipes pipe = some found → ∃ flags, opened found flags = 1
  -- a pipe that never got descriptors has none at either end
  together : ∀ left right pipe leftEnd rightEnd, sharing.endAt left = some (pipe, leftEnd) →
    sharing.endAt right = some (pipe, rightEnd) → sharing.references left = 0 →
    sharing.references right = 0

variable {sharing : Sharing} {addr pipe reader writer count : Nat} {file : File} {flags : PipeFlags}

theorem endAt_stored (stored : sharing.files addr = some file) : sharing.endAt addr = file.fOp.pipeEnd := by
  rw [endAt, stored]
  rfl

theorem endAt_pipe (stored : sharing.files addr = some file) (ops : file.fOp = .pipe pipe flags) :
    sharing.endAt addr = some (pipe, flags) := by
  rw [endAt_stored stored, ops]
  rfl

theorem endAt_missing (missing : sharing.files addr = none) : sharing.endAt addr = none := by
  rw [endAt, missing]
  rfl

theorem ne_of_endAt (missing : sharing.files other = none) (ends : sharing.endAt addr = some (pipe, flags)) :
    addr ≠ other := by
  rintro rfl
  rw [endAt_missing missing] at ends
  cases ends

theorem endAt_add (same : file.fOp.pipeEnd = sharing.endAt addr) : (sharing.add addr file).endAt = sharing.endAt := by
  funext other
  by_cases here : other = addr
  · subst here
    rw [← same]
    exact endAt_stored (update_self ..)
  · simp only [endAt, add, update_of_ne here]

theorem endAt_addPipe (different : writer ≠ reader) :
    (sharing.addPipe pipe reader writer count).endAt =
      update (update sharing.endAt reader (some (pipe, .rdonly))) writer
        (some (pipe, .wronly)) := by
  funext other
  by_cases last : other = writer
  · subst last
    simp [endAt, Sharing.addPipe, FileOps.pipeEnd]
  · by_cases first : other = reader
    · subst first
      simp [endAt, Sharing.addPipe, FileOps.pipeEnd, last]
    · simp [endAt, Sharing.addPipe, last, first]

def endOf (reader writer : Nat) : PipeFlags → Nat
  | .rdonly => reader
  | .wronly => writer

theorem opened_pipeCreate (flags : PipeFlags) : opened Ipc.pipeCreate flags = 1 := by
  cases flags <;> rfl

theorem opened_pipeClose (found : Pipe) (flags other : PipeFlags) :
    opened (pipeClose found flags).1 other = opened found other - if other = flags then 1 else 0 := by
  cases flags <;> cases other <;> simp [opened, pipeClose]

theorem pipeClose_freed (found : Pipe) :
    (pipeClose found flags).2 = true ↔ ∀ other, opened (pipeClose found flags).1 other = 0 := by
  simp only [pipeClose, Bool.and_eq_true, decide_eq_true_eq]
  constructor
  · intro ⟨readers, writers⟩ other
    cases other
    · exact readers
    · exact writers
  · intro closed
    exact ⟨closed .rdonly, closed .wronly⟩

theorem endAt_close_last (last : file.fCount = 1) :
    (sharing.close addr file).endAt = update sharing.endAt addr none := by
  funext other
  by_cases here : other = addr
  · subst here
    simp [endAt, close, last]
  · simp [endAt, close, here]

theorem endAt_of_close_last (last : file.fCount = 1) (held : (sharing.close addr file).endAt other = some ending) :
    other ≠ addr ∧ sharing.endAt other = some ending := by
  rw [endAt_close_last last] at held
  by_cases here : other = addr
  · rw [here, update_self] at held
    cases held
  · rw [update_of_ne here] at held
    exact ⟨here, held⟩

theorem endAt_close_last_of_ne (last : file.fCount = 1) (ends : sharing.endAt addr = some (pipe, flags))
    (apart : ending ≠ (pipe, flags)) (before : sharing.endAt other = some ending) :
    (sharing.close addr file).endAt other = some ending := by
  have different : other ≠ addr := by
    rintro rfl
    rw [ends] at before
    exact apart (Option.some.inj before.symm)
  rw [endAt_close_last last, update_of_ne different]
  exact before

theorem Change.isOpen (change : sharing.Change closing after) (ends : sharing.endAt addr = some (pipe, flags))
    (used : 0 < sharing.references addr) :
    after.IsOpen pipe flags ∨ ∃ file, closing = some file ∧ sharing.files addr = some file ∧
      after = sharing.close addr file := by
  have added : ∀ {other : Nat} {file : File}, file.fOp.pipeEnd = sharing.endAt other →
      (sharing.add other file).IsOpen pipe flags := by
    intro other file same
    refine ⟨addr, by rw [endAt_add same]; exact ends, ?_⟩
    by_cases here : addr = other
    · simp [add, here]
    · simpa only [add, update_of_ne here] using used
  cases change with
  | kept => exact .inl ⟨addr, ends, used⟩
  | opened unused => exact .inl (added (endAt_missing unused).symm)
  | raised found _ => exact .inl (added (endAt_stored found).symm)
  | piped vacant readerUnused writerUnused different atMost =>
    have notReader : addr ≠ _ := ne_of_endAt readerUnused ends
    have notWriter : addr ≠ _ := ne_of_endAt writerUnused ends
    refine .inl ⟨addr, ?_, ?_⟩
    · rw [endAt_addPipe different, update_of_ne notWriter, update_of_ne notReader]
      exact ends
    · simpa only [addPipe, update_of_ne notWriter, update_of_ne notReader] using used
  | @closed other file found _ =>
    by_cases here : addr = other
    · subst here
      exact .inr ⟨file, rfl, found, rfl⟩
    · refine .inl ⟨addr, ?_, ?_⟩
      · simpa only [endAt, close, update_of_ne here] using ends
      · simpa only [close, update_of_ne here] using used

namespace Sound

variable (sound : sharing.Sound)
include sound

theorem unreferenced (unused : sharing.files addr = none) :
    sharing.references addr = 0 := by
  by_contra used
  obtain ⟨file, found, _⟩ := sound.counted addr (by omega)
  rw [unused] at found
  cases found

theorem endsCounted : sharing.EndsCounted := by
  intro pipe flags ⟨addr, ends, _⟩
  obtain ⟨found, allocated, one⟩ := sound.ends addr pipe flags ends
  exact ⟨found, allocated, by omega⟩

/-- Files may come and go as long as the ends of pipes and whether they are open
stay. -/
theorem of_same {after : Sharing} (ends : after.endAt = sharing.endAt)
    (pipes : after.pipes = sharing.pipes)
    (references : ∀ addr, sharing.endAt addr ≠ none → (after.references addr = 0 ↔ sharing.references addr = 0))
    (counted : ∀ addr, 0 < after.references addr →
      ∃ file, after.files addr = some file ∧ file.fCount = after.references addr) : after.Sound := by
  refine ⟨counted, ?_, ?_, ?_, ?_, fun left right pipe leftEnd rightEnd leftAt rightAt none => ?_⟩
  · rw [ends, pipes]
    exact sound.ends
  · rw [ends]
    exact sound.single
  · rw [ends, pipes]
    exact sound.held
  · rw [pipes]
    exact sound.live
  · rw [ends] at leftAt rightAt
    rw [references _ (leftAt ▸ nofun)] at none
    rw [references _ (rightAt ▸ nofun)]
    exact sound.together left right pipe leftEnd rightEnd leftAt rightAt none

theorem add (same : file.fOp.pipeEnd = sharing.endAt addr)
    (used : sharing.endAt addr = none ∨ 0 < sharing.references addr)
    (raised : file.fCount = sharing.references addr + 1) : (sharing.add addr file).Sound := by
  refine sound.of_same (endAt_add same) rfl (fun other ends => ?_) fun other positive => ?_
  · by_cases here : other = addr
    · subst here
      have positive := used.resolve_left ends
      simp only [Sharing.add, update_self]
      omega
    · simp only [Sharing.add, update_of_ne here]
  · by_cases here : other = addr
    · subst here
      refine ⟨file, update_self .., ?_⟩
      simp only [Sharing.add, update_self]
      rw [raised]
      rfl
    · simp only [Sharing.add, update_of_ne here] at positive ⊢
      exact sound.counted other positive

theorem endAt_addPipe_cases (vacant : sharing.pipes pipe = none)
    (different : writer ≠ reader)
    (ends : (sharing.addPipe pipe reader writer count).endAt other = some (target, flags)) :
    (target = pipe ∧ other = endOf reader writer flags ∧
        (sharing.addPipe pipe reader writer count).references other = count) ∨
      (target ≠ pipe ∧ sharing.endAt other = some (target, flags) ∧
        (sharing.addPipe pipe reader writer count).references other = sharing.references other) := by
  rw [endAt_addPipe different] at ends
  by_cases last : other = writer
  · subst last
    rw [update_self] at ends
    cases ends
    exact .inl ⟨rfl, rfl, update_self ..⟩
  · rw [update_of_ne last] at ends
    by_cases first : other = reader
    · subst first
      rw [update_self] at ends
      cases ends
      exact .inl ⟨rfl, rfl, by simp [Sharing.addPipe, last]⟩
    · rw [update_of_ne first] at ends
      refine .inr ⟨?_, ends, by simp [Sharing.addPipe, first, last]⟩
      intro same
      obtain ⟨found, allocated, _⟩ := sound.ends other target flags ends
      rw [same, vacant] at allocated
      cases allocated

theorem addPipe (vacant : sharing.pipes pipe = none)
    (readerUnused : sharing.files reader = none) (writerUnused : sharing.files writer = none)
    (different : writer ≠ reader) (atMost : count ≤ 1) : (sharing.addPipe pipe reader writer count).Sound where
  counted := by
    intro other positive
    by_cases last : other = writer
    · subst last
      refine ⟨_, update_self .., ?_⟩
      simp only [Sharing.addPipe, update_self] at positive ⊢
      omega
    · by_cases first : other = reader
      · subst first
        refine ⟨{ fOp := .pipe pipe .rdonly, fCount := 1 }, ?_, ?_⟩
        · simp [Sharing.addPipe, last]
        · simp only [Sharing.addPipe, update_of_ne last, update_self] at positive ⊢
          omega
      · simp only [Sharing.addPipe, update_of_ne last, update_of_ne first] at positive ⊢
        exact sound.counted other positive
  ends := by
    intro other target flags ends
    rcases sound.endAt_addPipe_cases vacant different ends with ⟨rfl, -⟩ | ⟨apart, old, -⟩
    · exact ⟨_, update_self .., opened_pipeCreate flags⟩
    · simp only [Sharing.addPipe, update_of_ne apart]
      exact sound.ends other target flags old
  single := by
    intro left right target flags leftAt rightAt
    rcases sound.endAt_addPipe_cases vacant different leftAt with ⟨rfl, new, -⟩ | ⟨apart, old, -⟩ <;>
      rcases sound.endAt_addPipe_cases vacant different rightAt with ⟨same, other, -⟩ | ⟨apart', other, -⟩
    · exact new.trans other.symm
    · exact absurd rfl apart'
    · exact absurd same apart
    · exact sound.single left right target flags old other
  held := by
    intro target found flags allocated
    by_cases here : target = pipe
    · subst here
      simp only [Sharing.addPipe, update_self, Option.some.injEq] at allocated
      subst allocated
      rw [endAt_addPipe different]
      refine .inr ⟨opened_pipeCreate flags, ?_⟩
      cases flags with
      | rdonly => exact ⟨reader, by simp [Ne.symm different]⟩
      | wronly => exact ⟨writer, update_self ..⟩
    · simp only [Sharing.addPipe, update_of_ne here] at allocated
      refine (sound.held target found flags allocated).imp id ?_
      intro ⟨one, addr, ends⟩
      refine ⟨one, addr, ?_⟩
      rw [endAt_addPipe different, update_of_ne (ne_of_endAt writerUnused ends),
        update_of_ne (ne_of_endAt readerUnused ends)]
      exact ends
  live := by
    intro target found allocated
    by_cases here : target = pipe
    · subst here
      simp only [Sharing.addPipe, update_self, Option.some.injEq] at allocated
      subst allocated
      exact ⟨.rdonly, rfl⟩
    · simp only [Sharing.addPipe, update_of_ne here] at allocated
      exact sound.live target found allocated
  together := by
    intro left right target leftEnd rightEnd leftAt rightAt none
    rcases sound.endAt_addPipe_cases vacant different leftAt with ⟨rfl, -, new⟩ | ⟨apart, old, count⟩ <;>
      rcases sound.endAt_addPipe_cases vacant different rightAt with ⟨same, -, other⟩ | ⟨apart', other, count'⟩
    · exact other.trans (new.symm.trans none)
    · exact absurd rfl apart'
    · exact absurd same apart
    · rw [count']
      exact sound.together left right target leftEnd rightEnd old other (count ▸ none)

section

variable (found : sharing.files addr = some file) (used : 0 < sharing.references addr)
include found used

theorem count_used : file.fCount = sharing.references addr := by
  obtain ⟨other, same, count⟩ := sound.counted addr used
  rw [found] at same
  cases same
  exact count

theorem counted_close (other : Nat) (positive : 0 < (sharing.close addr file).references other) :
    ∃ held, (sharing.close addr file).files other = some held ∧
      held.fCount = (sharing.close addr file).references other := by
  by_cases here : other = addr
  · subst here
    have count := sound.count_used found used
    simp only [close, update_self] at positive ⊢
    rw [if_neg (by omega)]
    exact ⟨_, rfl, by simp only; omega⟩
  · simp only [close, update_of_ne here] at positive ⊢
    exact sound.counted other positive

theorem close_inode (plain : file.fOp = .inode) : (sharing.close addr file).Sound := by
  have none : sharing.endAt addr = none := by rw [endAt_stored found, plain]; rfl
  have same : (sharing.close addr file).endAt = sharing.endAt := by
    funext other
    by_cases here : other = addr
    · subst here
      rw [none]
      simp only [endAt, close, update_self]
      split
      · rfl
      · simp only [Option.bind_some, plain, FileOps.pipeEnd]
    · simp only [endAt, close, update_of_ne here]
  have pipes : (sharing.close addr file).pipes = sharing.pipes := by simp only [close, plain, released]
  refine sound.of_same same pipes (fun other ends => ?_) (sound.counted_close found used)
  have apart : other ≠ addr := fun here => ends (here ▸ none)
  simp only [close, update_of_ne apart]

end

section

variable (found : sharing.files addr = some file) (ops : file.fOp = .pipe pipe flags)
include found ops

theorem pipes_close :
    ∃ old, sharing.pipes pipe = some old ∧ opened old flags = 1 ∧
      (sharing.close addr file).pipes = update sharing.pipes pipe
        (if (pipeClose old flags).2 then none else some (pipeClose old flags).1) := by
  have ends := endAt_pipe found ops
  obtain ⟨old, allocated, one⟩ := sound.ends addr pipe flags ends
  exact ⟨old, allocated, one, by simp only [close, released, ops, allocated]⟩

theorem ends_close (last : file.fCount = 1) (held : (sharing.close addr file).endAt other = some (target, side)) :
    ∃ found, (sharing.close addr file).pipes target = some found ∧ opened found side = 1 := by
  have ends := endAt_pipe found ops
  obtain ⟨old, allocated, one, pipes⟩ := sound.pipes_close found ops
  obtain ⟨apart, before⟩ := endAt_of_close_last last held
  obtain ⟨found', allocated', counted⟩ := sound.ends other target side before
  by_cases here : target = pipe
  · subst here
    rw [allocated] at allocated'
    cases allocated'
    have different : side ≠ flags := by
      rintro rfl
      exact apart (sound.single other addr target side before ends)
    have still := opened_pipeClose old flags side
    rw [if_neg different] at still
    rw [pipes, update_self, if_neg]
    · exact ⟨_, rfl, by omega⟩
    · intro freed
      have := (pipeClose_freed old).mp freed side
      omega
  · rw [pipes, update_of_ne here]
    exact ⟨found', allocated', counted⟩

theorem pipes_close_cases {held : Pipe} (allocated : (sharing.close addr file).pipes target = some held) :
    target ≠ pipe ∧ sharing.pipes target = some held ∨
      target = pipe ∧ ∃ old, sharing.pipes pipe = some old ∧ opened old flags = 1 ∧
        (pipeClose old flags).2 ≠ true ∧ held = (pipeClose old flags).1 := by
  obtain ⟨old, before, one, pipes⟩ := sound.pipes_close found ops
  rw [pipes] at allocated
  by_cases here : target = pipe
  · subst here
    rw [update_self] at allocated
    split at allocated
    · cases allocated
    · next isOpen =>
      cases allocated
      exact .inr ⟨rfl, old, before, one, isOpen, rfl⟩
  · rw [update_of_ne here] at allocated
    exact .inl ⟨here, allocated⟩

theorem held_close (last : file.fCount = 1) {held : Pipe} (side : PipeFlags)
    (allocated : (sharing.close addr file).pipes target = some held) :
    opened held side = 0 ∨ opened held side = 1 ∧
      ∃ other, (sharing.close addr file).endAt other = some (target, side) := by
  have ends := endAt_pipe found ops
  obtain ⟨apart, before⟩ | ⟨rfl, old, before, one, -, rfl⟩ := sound.pipes_close_cases found ops allocated
  · refine (sound.held target held side before).imp id ?_
    intro ⟨counted, other, isEnd⟩
    exact ⟨counted, other, endAt_close_last_of_ne last ends (fun pair => apart (congrArg Prod.fst pair)) isEnd⟩
  · rw [opened_pipeClose]
    by_cases same : side = flags
    · subst same
      rw [if_pos rfl]
      exact .inl (by omega)
    · rw [if_neg same, Int.sub_zero]
      refine (sound.held target old side before).imp id ?_
      intro ⟨counted, other, isEnd⟩
      exact ⟨counted, other, endAt_close_last_of_ne last ends (fun pair => same (congrArg Prod.snd pair)) isEnd⟩

theorem live_close {held : Pipe} (allocated : (sharing.close addr file).pipes target = some held) :
    ∃ side, opened held side = 1 := by
  obtain ⟨apart, before⟩ | ⟨rfl, old, before, one, isOpen, rfl⟩ :=
    sound.pipes_close_cases found ops allocated
  · exact sound.live target held before
  · rw [Ne, pipeClose_freed, not_forall] at isOpen
    obtain ⟨side, nonzero⟩ := isOpen
    refine ⟨side, ?_⟩
    rw [opened_pipeClose] at nonzero ⊢
    by_cases same : side = flags
    · subst same
      omega
    · rw [if_neg same] at nonzero ⊢
      rcases sound.held target old side before with zero | ⟨counted, _⟩ <;> omega

end

theorem close_pipe (found : sharing.files addr = some file)
    (used : 0 < sharing.references addr) (ops : file.fOp = .pipe pipe flags) (last : file.fCount = 1) :
    (sharing.close addr file).Sound where
  counted := sound.counted_close found used
  ends _ _ _ held := sound.ends_close found ops last held
  single left right target side leftAt rightAt :=
    sound.single left right target side (endAt_of_close_last last leftAt).2
      (endAt_of_close_last last rightAt).2
  held _ _ side allocated := sound.held_close found ops last side allocated
  live _ _ allocated := sound.live_close found ops allocated
  together := by
    intro left right target leftEnd rightEnd leftAt rightAt unused
    obtain ⟨leftApart, leftAt⟩ := endAt_of_close_last last leftAt
    obtain ⟨rightApart, rightAt⟩ := endAt_of_close_last last rightAt
    simp only [close, update_of_ne leftApart] at unused
    simp only [close, update_of_ne rightApart]
    exact sound.together left right target leftEnd rightEnd leftAt rightAt unused

variable (change : sharing.Change closing after)
include change

theorem step (last : ClosesLast closing) :
    after.Sound := by
  cases change with
  | kept => exact sound
  | opened unused =>
    refine sound.add (endAt_missing unused).symm (.inl (endAt_missing unused)) ?_
    rw [sound.unreferenced unused]
    rfl
  | raised found used =>
    refine sound.add (endAt_stored found).symm (.inr used) ?_
    rw [← sound.count_used found used]
  | piped vacant readerUnused writerUnused different atMost =>
    exact sound.addPipe vacant readerUnused writerUnused different atMost
  | @closed addr file found used =>
    cases ops : file.fOp with
    | inode => exact sound.close_inode found used ops
    | pipe pipe flags => exact sound.close_pipe found used ops (last file rfl (by rw [ops]; nofun))

/-- Closing one of several descriptors of an end leaves an open end uncounted. -/
theorem endsCounted_step :
    after.EndsCounted ↔ ClosesLast closing := by
  constructor
  · intro counted file closed pipe'
    cases change with
    | kept | opened | raised | piped => cases closed
    | @closed addr other found used =>
      cases closed
      by_contra several
      have count := sound.count_used found used
      cases ops : file.fOp with
      | inode => exact pipe' ops
      | pipe pipe flags =>
        obtain ⟨old, allocated, one, pipes⟩ := sound.pipes_close found ops
        have stored : (sharing.close addr file).files addr =
            some { file with fCount := file.fCount - 1 } := by
          simp only [close, update_self]
          exact if_neg (by omega)
        have open' : (sharing.close addr file).IsOpen pipe flags := by
          refine ⟨addr, endAt_pipe stored ops, ?_⟩
          simp only [close, update_self]
          omega
        obtain ⟨found', held, positive⟩ := counted pipe flags open'
        rw [pipes, update_self] at held
        split at held
        · cases held
        · cases held
          rw [opened_pipeClose, if_pos rfl] at positive
          omega
  · intro last
    exact (sound.step change last).endsCounted

theorem freed_open (allocated : sharing.pipes pipe ≠ none) (freed : after.pipes pipe = none) :
    ∃ flags, sharing.IsOpen pipe flags := by
  cases change with
  | kept | opened | raised => exact absurd freed allocated
  | @piped new _ _ _ =>
    by_cases here : pipe = new
    · subst here
      simp [Sharing.addPipe] at freed
    · simp only [Sharing.addPipe, update_of_ne here] at freed
      exact absurd freed allocated
  | @closed addr file found used =>
    cases ops : file.fOp with
    | inode =>
      simp only [close, ops] at freed
      exact absurd freed allocated
    | pipe target flags =>
      obtain ⟨old, _, _, pipes⟩ := sound.pipes_close found ops
      by_cases here : pipe = target
      · subst here
        exact ⟨flags, addr, endAt_pipe found ops, used⟩
      · rw [pipes, update_of_ne here] at freed
        exact absurd freed allocated

theorem freed_iff (last : ClosesLast closing)
    (pipe : Nat) :
    (sharing.pipes pipe ≠ none ∧ after.pipes pipe = none) ↔
      (∃ flags, sharing.IsOpen pipe flags) ∧ ∀ flags, ¬after.IsOpen pipe flags := by
  have next := sound.step change last
  constructor
  · intro ⟨allocated, freed⟩
    refine ⟨sound.freed_open change allocated freed, ?_⟩
    intro flags ⟨addr, ends, _⟩
    obtain ⟨found, held, _⟩ := next.ends addr pipe flags ends
    rw [freed] at held
    cases held
  · intro ⟨⟨flags, addr, ends, used⟩, shut⟩
    obtain ⟨found, allocated, _⟩ := sound.ends addr pipe flags ends
    refine ⟨by rw [allocated]; exact Option.some_ne_none found, ?_⟩
    -- otherwise the other end has a file, which never had a descriptor
    rcases change.isOpen ends used with still | ⟨file, rfl, stored, rfl⟩
    · exact absurd still (shut flags)
    · cases left : (sharing.close addr file).pipes pipe with
      | none => rfl
      | some rest =>
        have one : file.fCount = 1 := by
          refine last file rfl ?_
          intro plain
          rw [endAt_stored stored, plain] at ends
          cases ends
        obtain ⟨other, counted⟩ := next.live pipe rest left
        rcases next.held pipe rest other left with zero | ⟨_, position, held⟩
        · omega
        · have unused : (sharing.close addr file).references position = 0 := by
            by_contra positive
            exact shut other ⟨position, held, by omega⟩
          have apart : position ≠ addr := by
            rintro rfl
            simp [endAt, close, one] at held
          simp only [endAt, close, update_of_ne apart] at held unused
          have := sound.together position addr pipe other flags held ends unused
          omega

end Sound

end Sharing

end Rucix.Fs
