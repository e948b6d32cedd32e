import Rucix.Data.Run
import Rucix.Fs.Buffer.Chains

namespace Rucix.Fs

open Rucix.Data Function List

/-! One buffer for each block.

`getblk` searches its chain, gives up the lock to allocate a buffer, and searches
again before it adds the buffer.
-/

/-- The identity of a buffer: `b_bdev`, `b_blocknr` and `b_size`. -/
def BufferHead.key (head : BufferHead) : Nat × Nat × Nat := (head.bdev, head.blocknr, head.size)

theorem BufferHead.hash_eq {head twin : BufferHead} (equal : head.key = twin.key) :
    hash head.bdev head.blocknr = hash twin.bdev twin.blocknr :=
  congrArg (fun key => hash key.1 key.2.1) equal

theorem BufferHead.isFor_iff {head : BufferHead} {bdev size : Nat} :
    head.isFor bdev block size = true ↔ head.key = (bdev, block, size) := by
  simp [BufferHead.isFor, BufferHead.key]

inductive GetblkStage where
  | outside
  | missed (bdev block size : Nat)
  | allocated (bdev block size addr : Nat)
deriving DecidableEq, Repr

/-- `unreleased` counts, for each buffer, the results of `getblk` that have not
been given to `brelse`. -/
structure BufferSystem (Caller : Type) where
  table : BufferHash
  stage : Caller → GetblkStage
  unreleased : Nat → Nat

/-- The parts of `getblk` with what they found or return, and what else happens to a buffer. -/
inductive BufferOp (Caller : Type) where
  | findGetBlock (caller : Caller) (bdev block size : Nat) (found : Option Nat)
  | allocBufferHead (caller : Caller) (alloc : BufferAllocation)
  | addBuffer (caller : Caller) (bdev block size returned : Nat)
  | brelse (addr : Nat)
  | setDirty (addr : Nat) (dirty : Bool)

def BufferOp.Returns {Caller : Type} (bdev block size addr : Nat) : BufferOp Caller → Prop
  | .findGetBlock _ bdev' block' size' found =>
    (bdev', block', size') = (bdev, block, size) ∧ found = some addr
  | .addBuffer _ bdev' block' size' returned =>
    (bdev', block', size') = (bdev, block, size) ∧ returned = addr
  | _ => False

variable {Caller : Type} [DecidableEq Caller]

namespace BufferSystem

def initial : BufferSystem Caller where
  table := { bhHash := fun _ => none, heads := fun _ => none, bufferCacheCount := 0 }
  stage _ := .outside
  unreleased _ := 0

def goto (system : BufferSystem Caller) (caller : Caller) (stage : GetblkStage) : BufferSystem Caller :=
  { system with stage := update system.stage caller stage }

def setUnreleased (system : BufferSystem Caller) (addr count : Nat) : BufferSystem Caller :=
  { system with unreleased := update system.unreleased addr count }

end BufferSystem

/-- `kmalloc` gives memory that is not in use; only a buffer that is held is
released or changes its dirty bit. -/
inductive BufferStep (before : BufferSystem Caller) : BufferOp Caller → BufferSystem Caller → Prop where
  | hit {caller : Caller} {bdev block size addr fuel : Nat} {table : BufferHash}
      (outside : before.stage caller = .outside)
      (done : before.table.findGetBlock fuel bdev block size = some (some addr, table)) :
      BufferStep before (.findGetBlock caller bdev block size (some addr))
        ({ before with table }.setUnreleased addr (before.unreleased addr + 1))
  | miss {caller : Caller} {bdev block size fuel : Nat} {table : BufferHash}
      (outside : before.stage caller = .outside)
      (done : before.table.findGetBlock fuel bdev block size = some (none, table)) :
      BufferStep before (.findGetBlock caller bdev block size none)
        ({ before with table }.goto caller (.missed bdev block size))
  | allocated {caller : Caller} {alloc : BufferAllocation} {bdev block size addr : Nat} {table : BufferHash}
      (missed : before.stage caller = .missed bdev block size)
      (fresh : ∀ addr, alloc.head = some addr → before.table.heads addr = none)
      (done : before.table.allocBufferHead alloc bdev block size = some (addr, table)) :
      BufferStep before (.allocBufferHead caller alloc)
        ({ before with table }.goto caller (.allocated bdev block size addr))
  | failed {caller : Caller} {alloc : BufferAllocation} {bdev block size : Nat}
      (missed : before.stage caller = .missed bdev block size)
      (done : before.table.allocBufferHead alloc bdev block size = none) :
      BufferStep before (.allocBufferHead caller alloc) (before.goto caller .outside)
  | added {caller : Caller} {bdev block size addr returned fuel : Nat} {table : BufferHash}
      (allocated : before.stage caller = .allocated bdev block size addr)
      (done : before.table.addBuffer fuel addr bdev block size = some (returned, table)) :
      BufferStep before (.addBuffer caller bdev block size returned)
        (({ before with table }.goto caller .outside).setUnreleased returned
          (before.unreleased returned + 1))
  | brelse {addr : Nat} (held : 0 < before.unreleased addr) :
      BufferStep before (.brelse addr)
        ({ before with table := before.table.brelse addr }.setUnreleased addr (before.unreleased addr - 1))
  | setDirty {addr : Nat} {dirty : Bool} (held : 0 < before.unreleased addr) :
      BufferStep before (.setDirty addr dirty) { before with table := before.table.setDirty addr dirty }

/-- Every listed buffer is in the chain of its own hash, is the only one with
its key and counts its holders; no other buffer has holders. -/
structure BufferCache.Identified (cache : BufferCache) (unreleased : Nat → Nat) : Prop where
  placed : ∀ index, ∀ addr ∈ cache.bhHash index, ∃ head, cache.heads addr = some head ∧
    hash head.bdev head.blocknr = index ∧ head.count = unreleased addr
  unique : ∀ index, ∀ addr ∈ cache.bhHash index, ∀ other ∈ cache.bhHash index, ∀ head twin,
    cache.heads addr = some head → cache.heads other = some twin → head.key = twin.key → addr = other
  unlisted : ∀ addr, (∀ index, addr ∉ cache.bhHash index) → unreleased addr = 0

/-- A buffer that a caller has allocated is its own until it is added. -/
structure BufferCache.Private (cache : BufferCache) (stage : Caller → GetblkStage) : Prop where
  stored : ∀ caller bdev block size addr, stage caller = .allocated bdev block size addr →
    ∃ data, cache.heads addr = some (freshHead data bdev block size)
  unlisted : ∀ caller bdev block size addr, stage caller = .allocated bdev block size addr →
    ∀ index, addr ∉ cache.bhHash index
  apart : ∀ caller other bdev block size bdev' block' size' addr,
    stage caller = .allocated bdev block size addr → stage other = .allocated bdev' block' size' addr →
    caller = other

namespace BufferCache.Identified

variable {cache : BufferCache} {unreleased : Nat → Nat} {addr index : Nat}

variable (identified : cache.Identified unreleased)
include identified

theorem listed_of_held (held : 0 < unreleased addr) : ∃ index, addr ∈ cache.bhHash index := by
  by_contra absent
  have none := identified.unlisted addr (not_exists.mp absent)
  omega

theorem count_eq {head : BufferHead} (listed : addr ∈ cache.bhHash index) (stored : cache.heads addr = some head) :
    head.count = unreleased addr := by
  obtain ⟨found, same, -, counted⟩ := identified.placed index addr listed
  cases same.symm.trans stored
  exact counted

/-- No two listed buffers have one key, whatever their chains. -/
theorem eq_of_key {head : BufferHead} (listed : addr ∈ cache.bhHash index) (listed' : twin ∈ cache.bhHash other)
    (stored : cache.heads addr = some head) (stored' : cache.heads twin = some copy) (equal : head.key = copy.key) :
    addr = twin := by
  obtain ⟨found, same, placed, -⟩ := identified.placed index addr listed
  obtain ⟨found', same', placed', -⟩ := identified.placed other twin listed'
  cases stored.symm.trans same
  cases stored'.symm.trans same'
  have chain : other = index := by rw [← placed, ← placed', BufferHead.hash_eq equal]
  subst chain
  exact identified.unique other addr listed twin listed' head copy stored stored' equal

/-- Every buffer that is still listed was listed in the same chain, and has its
old key and the new number of holders. -/
theorem of_kept {after : BufferCache} {later : Nat → Nat}
    (kept : ∀ index, ∀ addr ∈ after.bhHash index, addr ∈ cache.bhHash index ∧
      ∀ head, cache.heads addr = some head → head.count = unreleased addr →
        ∃ new, after.heads addr = some new ∧ new.key = head.key ∧ new.count = later addr)
    (unlisted : ∀ addr, (∀ index, addr ∉ after.bhHash index) → later addr = 0) : after.Identified later := by
  refine ⟨fun index addr member => ?_, fun index first here second there head twin stored stored' equal => ?_,
    unlisted⟩
  · obtain ⟨listed, same⟩ := kept index addr member
    obtain ⟨head, stored, placed, counted⟩ := identified.placed index addr listed
    obtain ⟨new, now, key, held⟩ := same head stored counted
    exact ⟨new, now, (BufferHead.hash_eq key).trans placed, held⟩
  · obtain ⟨listed, same⟩ := kept index first here
    obtain ⟨listed', same'⟩ := kept index second there
    obtain ⟨old, before, -, counted⟩ := identified.placed index first listed
    obtain ⟨old', before', -, counted'⟩ := identified.placed index second listed'
    obtain ⟨new, now, key, -⟩ := same old before counted
    obtain ⟨new', now', key', -⟩ := same' old' before' counted'
    cases stored.symm.trans now
    cases stored'.symm.trans now'
    exact identified.unique index first listed second listed' old old' before before'
      (key.symm.trans (equal.trans key'))

theorem modify (listed : addr ∈ cache.bhHash index) (change : BufferHead → BufferHead) (count : Nat)
    (sameKey : ∀ head, (change head).key = head.key)
    (counted : ∀ head, cache.heads addr = some head → (change head).count = count) :
    (cache.setHead addr ((cache.heads addr).map change)).Identified
      (update unreleased addr count) := by
  refine identified.of_kept (fun target other member => ⟨member, fun head stored holders => ?_⟩) fun other absent => ?_
  · by_cases same : other = addr
    · subst same
      exact ⟨change head, by simp [setHead, stored], sameKey head, by rw [counted head stored, update_self]⟩
    · exact ⟨head, by simpa [setHead, same] using stored, rfl, by rw [holders, update_of_ne same]⟩
  · have different : other ≠ addr := by
      rintro rfl
      exact absent index listed
    rw [update_of_ne different]
    exact identified.unlisted other absent

theorem setHead (unlisted : ∀ index, addr ∉ cache.bhHash index) (head : Option BufferHead) :
    (cache.setHead addr head).Identified unreleased := by
  refine identified.of_kept (fun index other member => ⟨member, fun head stored counted => ?_⟩) identified.unlisted
  exact ⟨head, (update_of_ne (ne_of_mem_of_not_mem member (unlisted index)) _ _).trans stored, rfl, counted⟩

theorem link (unlisted : ∀ index, addr ∉ cache.bhHash index)
    (stored : cache.heads addr = some (freshHead data bdev block size)) (absent : cache.search bdev block size = none) :
    (cache.link (hash bdev block) addr).Identified
      (update unreleased addr (unreleased addr + 1)) := by
  have chain : ∀ target other, other ∈ (cache.link (hash bdev block) addr).bhHash target →
      other = addr ∧ target = hash bdev block ∨ other ≠ addr ∧ other ∈ cache.bhHash target := by
    intro target other member
    refine (mem_link_iff.mp member).imp_right fun old => ⟨ne_of_mem_of_not_mem old (unlisted target), old⟩
  have other_key : ∀ other head, other ∈ cache.bhHash (hash bdev block) → cache.heads other = some head →
      head.key ≠ (bdev, block, size) := by
    intro other head member found same
    have rejected := find?_eq_none.mp absent other member
    rw [found, Option.any_some, BufferHead.isFor_iff] at rejected
    exact rejected same
  refine ⟨fun target other member => ?_, fun target first here second there head twin => ?_,
    fun other missing => ?_⟩
  · rcases chain target other member with ⟨rfl, rfl⟩ | ⟨different, old⟩
    · have alone := identified.unlisted other unlisted
      exact ⟨_, stored, rfl, by rw [update_self, alone]; rfl⟩
    · rw [update_of_ne different]
      exact identified.placed target other old
  · intro found found' equal
    rcases chain target first here with ⟨rfl, rfl⟩ | ⟨-, old⟩
    · rcases chain _ second there with ⟨rfl, -⟩ | ⟨-, old'⟩
      · rfl
      · cases stored.symm.trans found
        exact absurd equal.symm (other_key second twin old' found')
    · rcases chain _ second there with ⟨rfl, rfl⟩ | ⟨-, old'⟩
      · cases stored.symm.trans found'
        exact absurd equal (other_key first head old found)
      · exact identified.unique target first old second old' head twin found found' equal
  · have different : other ≠ addr := by
      rintro rfl
      exact missing (hash bdev block) (mem_link_iff.mpr (.inl ⟨rfl, rfl⟩))
    rw [update_of_ne different]
    exact identified.unlisted other fun target old => missing target (mem_link_iff.mpr (.inr old))

theorem mem_evicted_iff (nodup : (cache.bhHash index).Nodup) (listed : addr ∈ cache.bhHash index) :
    other ∈ update cache.bhHash index ((cache.bhHash index).erase addr) target ↔
      other ≠ addr ∧ other ∈ cache.bhHash target := by
  by_cases here : target = index
  · subst here
    rw [update_self, nodup.mem_erase_iff]
  · rw [update_of_ne here, iff_and_self]
    rintro member rfl
    obtain ⟨head, stored, placed, -⟩ := identified.placed index other listed
    obtain ⟨again, stored', elsewhere, -⟩ := identified.placed target other member
    cases stored.symm.trans stored'
    exact here (elsewhere.symm.trans placed)

theorem evict (nodup : (cache.bhHash index).Nodup) (listed : addr ∈ cache.bhHash index) (count : Int) :
    BufferCache.Identified
      { cache.setHead addr none with
        bhHash := update cache.bhHash index ((cache.bhHash index).erase addr)
        bufferCacheCount := count }
      (update unreleased addr 0) := by
  have chain : ∀ target other,
      other ∈ update cache.bhHash index ((cache.bhHash index).erase addr) target ↔
        other ≠ addr ∧ other ∈ cache.bhHash target := fun _ _ =>
    identified.mem_evicted_iff nodup listed
  refine identified.of_kept (fun target other member => ?_) fun other missing => ?_
  · obtain ⟨different, old⟩ := (chain target other).mp member
    refine ⟨old, fun head stored counted => ⟨head, (update_of_ne different _ _).trans stored, rfl, ?_⟩⟩
    rw [counted, update_of_ne different]
  · by_cases different : other = addr
    · rw [different, update_self]
    · rw [update_of_ne different]
      exact identified.unlisted other fun target old => missing target ((chain target other).mpr ⟨different, old⟩)

end BufferCache.Identified

namespace BufferCache.Private

variable {cache after : BufferCache} {stage later : Caller → GetblkStage} {caller : Caller}
  {bdev block size addr : Nat}

variable (own : cache.Private stage)
include own

omit [DecidableEq Caller] in
theorem congr (kept : ∀ caller bdev block size addr, later caller = .allocated bdev block size addr →
      stage caller = .allocated bdev block size addr ∧ after.heads addr = cache.heads addr ∧
        ∀ index, addr ∉ after.bhHash index) : after.Private later := by
  refine ⟨fun caller bdev block size addr inside => ?_, fun caller bdev block size addr inside => ?_,
    fun caller other bdev block size bdev' block' size' addr inside inside' => ?_⟩
  · obtain ⟨before, same, -⟩ := kept caller bdev block size addr inside
    rw [same]
    exact own.stored caller bdev block size addr before
  · exact (kept caller bdev block size addr inside).2.2
  · exact own.apart caller other bdev block size bdev' block' size' addr
      (kept _ _ _ _ _ inside).1 (kept _ _ _ _ _ inside').1

theorem goto (empty : ∀ bdev block size addr, place ≠ .allocated bdev block size addr) :
    cache.Private (update stage caller place) := by
  refine own.congr fun other bdev block size addr inside => ?_
  by_cases same : other = caller
  · rw [same, update_self] at inside
    exact absurd inside (empty bdev block size addr)
  · rw [update_of_ne same] at inside
    exact ⟨inside, rfl, own.unlisted other bdev block size addr inside⟩

omit [DecidableEq Caller] in
theorem setHead (listed : addr ∈ cache.bhHash index) (head : Option BufferHead) :
    (cache.setHead addr head).Private stage := by
  refine own.congr fun caller bdev block size other inside => ⟨inside, ?_, ?_⟩
  · have unlisted := own.unlisted caller bdev block size other inside index
    exact update_of_ne (ne_of_mem_of_not_mem listed unlisted).symm _ _
  · exact own.unlisted caller bdev block size other inside

theorem finish (mine : stage caller = .allocated bdev block size addr)
    (heads : ∀ other, other ≠ addr → after.heads other = cache.heads other)
    (chains : ∀ index other, other ∈ after.bhHash index → other = addr ∨ other ∈ cache.bhHash index) :
    after.Private (update stage caller .outside) := by
  refine own.congr fun other bdev' block' size' addr' inside => ?_
  by_cases same : other = caller
  · rw [same, update_self] at inside
    cases inside
  · rw [update_of_ne same] at inside
    have different : addr' ≠ addr := by
      rintro rfl
      exact same (own.apart other caller bdev' block' size' bdev block size addr' inside mine)
    refine ⟨inside, heads addr' different, fun index listed => ?_⟩
    rcases chains index addr' listed with equal | old
    · exact different equal
    · exact own.unlisted other bdev' block' size' addr' inside index old

theorem allocate (free : cache.heads addr = none) (unlisted : ∀ index, addr ∉ cache.bhHash index) :
    (cache.withHead addr data bdev block size).Private
      (update stage caller (.allocated bdev block size addr)) := by
  have split : ∀ other bdev' block' size' addr',
      update stage caller (.allocated bdev block size addr) other = .allocated bdev' block' size' addr' →
      other = caller ∧ bdev = bdev' ∧ block = block' ∧ size = size' ∧ addr = addr' ∨
        stage other = .allocated bdev' block' size' addr' ∧ addr' ≠ addr := by
    intro other bdev' block' size' addr' inside
    by_cases same : other = caller
    · rw [same, update_self] at inside
      cases inside
      exact .inl ⟨same, rfl, rfl, rfl, rfl⟩
    · rw [update_of_ne same] at inside
      refine .inr ⟨inside, ?_⟩
      rintro rfl
      obtain ⟨data, stored⟩ := own.stored other bdev' block' size' addr' inside
      cases free.symm.trans stored
  refine ⟨fun other bdev' block' size' addr' inside => ?_, fun other bdev' block' size' addr' inside => ?_,
    fun first second bdev₁ block₁ size₁ bdev₂ block₂ size₂ addr' inside inside' => ?_⟩
  · rcases split _ _ _ _ _ inside with ⟨-, rfl, rfl, rfl, rfl⟩ | ⟨old, different⟩
    · exact ⟨data, update_self ..⟩
    · obtain ⟨data', stored⟩ := own.stored other bdev' block' size' addr' old
      exact ⟨data', (update_of_ne different _ _).trans stored⟩
  · rcases split _ _ _ _ _ inside with ⟨-, -, -, -, rfl⟩ | ⟨old, -⟩
    · exact unlisted
    · exact own.unlisted other bdev' block' size' addr' old
  · rcases split _ _ _ _ _ inside with ⟨same, -, -, -, made⟩ | ⟨old, different⟩ <;>
      rcases split _ _ _ _ _ inside' with ⟨same', -, -, -, made'⟩ | ⟨old', different'⟩
    · rw [same, same']
    · exact absurd made.symm different'
    · exact absurd made'.symm different
    · exact own.apart first second _ _ _ _ _ _ _ old old'

end BufferCache.Private

/-- A step keeps every listed buffer but one that `brelse` gives up, and what it returns
is listed and for the block asked for. -/
structure BufferOp.Effect (op : BufferOp Caller) (cache after : BufferCache) : Prop where
  kept : ∀ index, ∀ addr ∈ cache.bhHash index, addr ∈ after.bhHash index ∨
    op = .brelse addr ∧ ∃ head, cache.heads addr = some head ∧ head.count - 1 = 0 ∧ head.dirty = false
  returned : ∀ bdev block size addr, op.Returns bdev block size addr →
    addr ∈ after.bhHash (hash bdev block) ∧
      ∃ head, after.heads addr = some head ∧ head.key = (bdev, block, size)

/-- The steps, with what they do to the lists of the chains. -/
inductive BufferChange (system : BufferSystem Caller) (cache : BufferCache) :
    BufferOp Caller → BufferSystem Caller → BufferCache → Prop where
  | hit {caller : Caller} {bdev block size addr : Nat} (outside : system.stage caller = .outside)
      (found : cache.search bdev block size = some addr) :
      BufferChange system cache (.findGetBlock caller bdev block size (some addr))
        ({ system with table := system.table.takeReference addr }.setUnreleased addr
          (system.unreleased addr + 1))
        (cache.takeReference addr)
  | miss {caller : Caller} {bdev block size : Nat} (outside : system.stage caller = .outside) :
      BufferChange system cache (.findGetBlock caller bdev block size none)
        (system.goto caller (.missed bdev block size)) cache
  | allocated {caller : Caller} {alloc : BufferAllocation} {bdev block size addr data : Nat}
      {table : BufferHash} (missed : system.stage caller = .missed bdev block size)
      (free : system.table.heads addr = none)
      (represents : table.Represents (cache.withHead addr data bdev block size)) :
      BufferChange system cache (.allocBufferHead caller alloc)
        ({ system with table }.goto caller (.allocated bdev block size addr))
        (cache.withHead addr data bdev block size)
  | failed {caller : Caller} {alloc : BufferAllocation} {bdev block size : Nat}
      (missed : system.stage caller = .missed bdev block size) :
      BufferChange system cache (.allocBufferHead caller alloc) (system.goto caller .outside) cache
  | lost {caller : Caller} {bdev block size addr other : Nat}
      (mine : system.stage caller = .allocated bdev block size addr)
      (found : cache.search bdev block size = some other) :
      BufferChange system cache (.addBuffer caller bdev block size other)
        (({ system with table := (system.table.takeReference other).setHead addr none }.goto caller
          .outside).setUnreleased other (system.unreleased other + 1))
        ((cache.takeReference other).setHead addr none)
  | linked {caller : Caller} {bdev block size addr : Nat}
      (mine : system.stage caller = .allocated bdev block size addr)
      (absent : cache.search bdev block size = none) :
      BufferChange system cache (.addBuffer caller bdev block size addr)
        (({ system with table := system.table.link (hash bdev block) addr }.goto caller
          .outside).setUnreleased addr (system.unreleased addr + 1))
        (cache.link (hash bdev block) addr)
  | brelse {addr : Nat} (held : 0 < system.unreleased addr) :
      BufferChange system cache (.brelse addr)
        ({ system with table := system.table.brelse addr }.setUnreleased addr (system.unreleased addr - 1))
        (cache.brelse addr)
  | setDirty {addr : Nat} {dirty : Bool} (held : 0 < system.unreleased addr) :
      BufferChange system cache (.setDirty addr dirty)
        { system with table := system.table.setDirty addr dirty }
        (cache.setHead addr ((cache.heads addr).map fun head => { head with dirty }))

structure BufferSystem.Sound (system : BufferSystem Caller) (cache : BufferCache) : Prop where
  represents : system.table.Represents cache
  identified : cache.Identified system.unreleased
  own : cache.Private system.stage

namespace BufferSystem.Sound

variable {system after : BufferSystem Caller} {cache : BufferCache} {bdev block size addr : Nat}
  {caller : Caller}

theorem search_some (found : cache.search bdev block size = some addr) :
    addr ∈ cache.bhHash (hash bdev block) ∧
      ∃ head, cache.heads addr = some head ∧ head.key = (bdev, block, size) := by
  refine ⟨mem_of_find?_eq_some found, ?_⟩
  have accepted := find?_some found
  cases stored : cache.heads addr with
  | none => simp [stored] at accepted
  | some head =>
    rw [stored, Option.any_some, BufferHead.isFor_iff] at accepted
    exact ⟨head, rfl, accepted⟩

variable (sound : system.Sound cache)
include sound

omit [DecidableEq Caller] in
theorem takeReference (listed : addr ∈ cache.bhHash index) :
    ({ system with table := system.table.takeReference addr }.setUnreleased addr
      (system.unreleased addr + 1)).Sound (cache.takeReference addr) := by
  refine ⟨sound.represents.takeReference addr, ?_, sound.own.setHead listed _⟩
  refine sound.identified.modify listed (fun head => { head with count := head.count + 1 }) _
    (fun _ => rfl) fun head stored => ?_
  simp [sound.identified.count_eq listed stored]

omit sound in
theorem heads_takeReference {head : BufferHead} (stored : cache.heads addr = some head) :
    (cache.takeReference addr).heads addr = some { head with count := head.count + 1 } := by
  simp [BufferCache.takeReference, BufferCache.setHead, stored]

theorem goto
    (empty : ∀ bdev block size addr, place ≠ .allocated bdev block size addr) :
    (system.goto caller place).Sound cache :=
  ⟨sound.represents, sound.identified, sound.own.goto empty⟩

theorem discard (mine : system.stage caller = .allocated bdev block size addr) :
    ({ system with table := system.table.setHead addr none }.goto caller .outside).Sound
      (cache.setHead addr none) := by
  have unlisted := sound.own.unlisted caller bdev block size addr mine
  refine ⟨sound.represents.setHead unlisted none, sound.identified.setHead unlisted none, ?_⟩
  refine sound.own.finish mine (fun other different => ?_) fun index other listed => .inr listed
  exact update_of_ne different _ _

theorem link (mine : system.stage caller = .allocated bdev block size addr)
    (absent : cache.search bdev block size = none) :
    (({ system with table := system.table.link (hash bdev block) addr }.goto caller .outside).setUnreleased
      addr (system.unreleased addr + 1)).Sound (cache.link (hash bdev block) addr) := by
  have unlisted := sound.own.unlisted caller bdev block size addr mine
  obtain ⟨data, stored⟩ := sound.own.stored caller bdev block size addr mine
  refine ⟨sound.represents.link unlisted (by simp [stored]) _,
    sound.identified.link unlisted stored absent, ?_⟩
  refine sound.own.finish mine (fun _ _ => rfl) fun index other listed => ?_
  exact (BufferCache.mem_link_iff.mp listed).imp_left And.left

theorem allocate {table : BufferHash} (free : system.table.heads addr = none)
    (represents : table.Represents (cache.withHead addr data bdev block size)) :
    ({ system with table }.goto caller (.allocated bdev block size addr)).Sound
      (cache.withHead addr data bdev block size) := by
  have unlisted := sound.represents.unlisted free
  have absent : cache.heads addr = none := by
    rw [sound.represents.contents, BufferHash.contents, free]
    rfl
  have identified := sound.identified.setHead unlisted (some (freshHead data bdev block size))
  exact ⟨represents, ⟨identified.placed, identified.unique, identified.unlisted⟩,
    sound.own.allocate absent unlisted⟩

omit [DecidableEq Caller] in
theorem brelse (held : 0 < system.unreleased addr) :
    ({ system with table := system.table.brelse addr }.setUnreleased addr
      (system.unreleased addr - 1)).Sound (cache.brelse addr) ∧
    ∀ index, ∀ other ∈ cache.bhHash index, other ∈ (cache.brelse addr).bhHash index ∨
      other = addr ∧ ∃ head, cache.heads addr = some head ∧ head.count - 1 = 0 ∧ head.dirty = false := by
  obtain ⟨index, listed⟩ := sound.identified.listed_of_held held
  obtain ⟨head, stored, rfl, counted⟩ := sound.identified.placed index addr listed
  have represents : (system.table.brelse addr).Represents (cache.brelse addr) := by
    refine sound.represents.brelse fun found same => ?_
    cases stored.symm.trans same
    exact listed
  by_cases evicts : head.count - 1 = 0 ∧ head.dirty = false ∧ maxBufferCache < cache.bufferCacheCount
  · have last : system.unreleased addr - 1 = 0 := by omega
    have nodup := sound.represents.chains.nodup (hash head.bdev head.blocknr)
    rw [BufferCache.brelse_evicts stored evicts] at represents ⊢
    refine ⟨⟨represents, ?_, ?_⟩, fun target other member => ?_⟩
    · rw [last]
      exact sound.identified.evict nodup listed _
    · refine sound.own.congr fun caller bdev block size other inside => ⟨inside, ?_, fun target member => ?_⟩
      · have unlisted := sound.own.unlisted caller bdev block size other inside
        exact update_of_ne (ne_of_mem_of_not_mem listed (unlisted _)).symm _ _
      · have old := (sound.identified.mem_evicted_iff nodup listed).mp member
        exact sound.own.unlisted caller bdev block size other inside target old.2
    · by_cases same : other = addr
      · exact .inr ⟨same, head, stored, evicts.1, evicts.2.1⟩
      · exact .inl ((sound.identified.mem_evicted_iff nodup listed).mpr ⟨same, member⟩)
  · rw [BufferCache.brelse_keeps stored evicts] at represents ⊢
    refine ⟨⟨represents, ?_, sound.own.setHead listed _⟩, fun target other member => .inl member⟩
    have changed : (some { head with count := head.count - 1 } : Option BufferHead) =
        (cache.heads addr).map fun head => { head with count := head.count - 1 } := by
      rw [stored, Option.map_some]
    rw [changed]
    refine sound.identified.modify listed _ _ (fun _ => rfl) fun found same => ?_
    cases stored.symm.trans same
    simp only [counted]
    omega

omit [DecidableEq Caller] in
theorem setDirty (held : 0 < system.unreleased addr) (dirty : Bool) :
    ({ system with table := system.table.setDirty addr dirty } : BufferSystem Caller).Sound
      (cache.setHead addr ((cache.heads addr).map fun head => { head with dirty })) := by
  obtain ⟨index, listed⟩ := sound.identified.listed_of_held held
  have represents := sound.represents.modify (fun head => { head with dirty })
    (fun head => { head with dirty }) (fun _ => rfl) (fun _ => rfl) (fun _ => rfl) addr
  refine ⟨represents, ?_, sound.own.setHead listed _⟩
  have marked := sound.identified.modify listed (fun head => { head with dirty }) (system.unreleased addr)
    (fun _ => rfl) fun _ => sound.identified.count_eq listed
  rwa [update_eq_self] at marked

theorem change (step : BufferStep system op after) : ∃ later, BufferChange system cache op after later := by
  cases step with
  | hit outside done =>
    simp only [BufferHash.findGetBlock] at done
    split at done
    · cases done
    · rename_i found returned
      cases done
      exact ⟨_, .hit outside (sound.represents.search_eq returned)⟩
    · cases done
  | miss outside done =>
    simp only [BufferHash.findGetBlock] at done
    split at done
    · cases done
    · cases done
    · cases done
      exact ⟨cache, .miss outside⟩
  | allocated missed fresh done =>
    obtain ⟨free, data, represents⟩ := sound.represents.allocBufferHead fresh done
    exact ⟨_, .allocated missed free represents⟩
  | failed missed done => exact ⟨cache, .failed missed⟩
  | added mine done =>
    simp only [BufferHash.addBuffer] at done
    split at done
    · cases done
    · rename_i other found
      cases done
      exact ⟨_, .lost mine (sound.represents.search_eq found)⟩
    · rename_i found
      cases done
      exact ⟨_, .linked mine (sound.represents.search_eq found)⟩
  | brelse held => exact ⟨_, .brelse held⟩
  | setDirty held => exact ⟨_, .setDirty held⟩

theorem of_change (change : BufferChange system cache op after later) : after.Sound later := by
  cases change with
  | hit outside found => exact sound.takeReference (search_some found).1
  | miss | failed => exact sound.goto nofun
  | allocated missed free represents => exact sound.allocate free represents
  | lost mine found => exact (sound.takeReference (search_some found).1).discard mine
  | linked mine absent => exact sound.link mine absent
  | brelse held => exact (sound.brelse held).1
  | setDirty held => exact sound.setDirty held _

theorem effect_of_change (change : BufferChange system cache op after later) : op.Effect cache later := by
  cases change with
  | hit outside found =>
    obtain ⟨listed, head, stored, key⟩ := search_some found
    refine ⟨fun index other member => .inl member, ?_⟩
    rintro _ _ _ _ ⟨⟨⟩, ⟨⟩⟩
    exact ⟨listed, _, heads_takeReference stored, key⟩
  | miss outside =>
    refine ⟨fun index other member => .inl member, ?_⟩
    rintro _ _ _ _ ⟨-, ⟨⟩⟩
  | allocated | failed | setDirty =>
    exact ⟨fun index other member => .inl member, fun _ _ _ _ returns => returns.elim⟩
  | @lost caller bdev block size addr other mine found =>
    obtain ⟨listed, head, stored, key⟩ := search_some found
    have different : other ≠ addr :=
      ne_of_mem_of_not_mem listed (sound.own.unlisted caller bdev block size addr mine _)
    refine ⟨fun index other member => .inl member, ?_⟩
    rintro _ _ _ _ ⟨⟨⟩, ⟨⟩⟩
    exact ⟨listed, _, (update_of_ne different _ _).trans (heads_takeReference stored), key⟩
  | @linked caller bdev block size addr mine absent =>
    obtain ⟨data, stored⟩ := sound.own.stored caller bdev block size addr mine
    refine ⟨fun index other member => .inl (BufferCache.mem_link_iff.mpr (.inr member)), ?_⟩
    rintro _ _ _ _ ⟨⟨⟩, ⟨⟩⟩
    exact ⟨BufferCache.mem_link_iff.mpr (.inl ⟨rfl, rfl⟩), _, stored, rfl⟩
  | brelse held =>
    refine ⟨fun index other member => ?_, fun _ _ _ _ returns => returns.elim⟩
    rcases (sound.brelse held).2 index other member with still | ⟨rfl, gone⟩
    · exact .inl still
    · exact .inr ⟨rfl, gone⟩

theorem step (step : BufferStep system op after) : ∃ later, after.Sound later ∧ op.Effect cache later := by
  obtain ⟨later, change⟩ := sound.change step
  exact ⟨later, sound.of_change change, sound.effect_of_change change⟩

end BufferSystem.Sound

def BufferHash.Hashed (table : BufferHash) (index addr : Nat) : Prop :=
  ∃ items, Linked table.nextHash (table.bhHash index) items none ∧ addr ∈ items

section

variable {cache : BufferCache} {table : BufferHash} (represents : table.Represents cache)
include represents

theorem BufferHash.Represents.hashed_iff : table.Hashed index addr ↔ addr ∈ cache.bhHash index := by
  constructor
  · rintro ⟨items, linked, member⟩
    rwa [linked.unique (represents.chains.linked index)] at member
  · intro listed
    exact ⟨_, represents.chains.linked index, listed⟩

theorem BufferHash.Represents.heads_of {head : BufferHead} (stored : cache.heads addr = some head) :
    ∃ hashed, table.heads addr = some hashed ∧ hashed.toBufferHead = head := by
  rw [represents.contents] at stored
  exact Option.map_eq_some_iff.mp stored

/-- With fuel for a whole chain, both searches come to an end. -/
theorem BufferHash.Represents.sections_return :
    ∃ fuel, (table.findGetBlock fuel bdev block size).isSome ∧
      ∀ addr, (table.addBuffer fuel addr bdev block size).isSome := by
  let chain := cache.bhHash (hash bdev block)
  have searched : (table.searchChain bdev block size (chain.length + 1)
      (table.bhHash (hash bdev block))).isSome :=
    (searchChain_spec (represents.chains.linked _) fun _ => represents.present).1 (Nat.lt_succ_self _)
  obtain ⟨result, searched⟩ := Option.isSome_iff_exists.mp searched
  refine ⟨chain.length + 1, ?_, fun addr => ?_⟩
  · simp only [findGetBlock, searched]
    cases result <;> rfl
  · simp only [addBuffer, searched]
    cases result <;> rfl

end

def BufferSystem.Coherent (system : BufferSystem Caller) : Prop := ∃ cache, system.Sound cache

omit [DecidableEq Caller] in
theorem BufferSystem.coherent_initial : (BufferSystem.initial : BufferSystem Caller).Coherent := by
  refine ⟨{ bhHash := fun _ => [], heads := fun _ => none, bufferCacheCount := 0, disks := fun _ => none,
            store := { disk := fun _ => 0, memory := fun _ => 0 } }, ⟨?_, rfl, rfl, by simp⟩,
    ⟨by simp, by simp, fun _ _ => rfl⟩, ⟨nofun, nofun, nofun⟩⟩
  exact ⟨⟨fun _ => rfl, by simp, by simp⟩, fun _ => trivial⟩

/-- Every linked buffer is in the chain of its hash, is pointed to where it says, counts
its unreleased results and is the only one with its key; `getblk` returns such buffers,
and only clean buffers without holders are freed. -/
theorem buffer_cache_run {system : BufferSystem Caller} {trace : List (BufferOp Caller)}
    (run : Run BufferStep BufferSystem.initial trace system) :
    (∀ index, ∃ items, Linked system.table.nextHash (system.table.bhHash index) items none) ∧
    (∀ index addr, system.table.Hashed index addr → ∃ head link, system.table.heads addr = some head ∧
      hash head.bdev head.blocknr = index ∧ head.count = system.unreleased addr ∧
      head.pprevHash = some link ∧ link.read system.table.nextHash system.table.bhHash = some addr) ∧
    (∀ index other addr twin head copy, system.table.Hashed index addr → system.table.Hashed other twin →
      system.table.heads addr = some head → system.table.heads twin = some copy →
      head.key = copy.key → addr = twin) ∧
    (∀ addr, 0 < system.unreleased addr → ∃ index, system.table.Hashed index addr) ∧
    (∀ op after, BufferStep system op after →
      (∀ bdev block size addr, op.Returns bdev block size addr →
        after.table.Hashed (hash bdev block) addr ∧
          ∃ head, after.table.heads addr = some head ∧ head.key = (bdev, block, size)) ∧
      ∀ index addr, system.table.Hashed index addr →
        ¬after.table.Hashed index addr ∨ after.table.heads addr = none →
        op = .brelse addr ∧ ∃ head, system.table.heads addr = some head ∧ head.count - 1 = 0 ∧
          head.dirty = false) ∧
    ∀ bdev block size, ∃ fuel, (system.table.findGetBlock fuel bdev block size).isSome ∧
      ∀ addr, (system.table.addBuffer fuel addr bdev block size).isSome := by
  obtain ⟨cache, sound⟩ : system.Coherent := run.invariant BufferSystem.coherent_initial
    fun _ _ _ coherent step => by
      obtain ⟨cache, sound⟩ := coherent
      obtain ⟨later, sound, -⟩ := sound.step step
      exact ⟨later, sound⟩
  have represents := sound.represents
  refine ⟨fun index => ⟨_, represents.chains.linked index⟩, fun index addr hashed => ?_, ?_,
    fun addr held => ?_, fun op after step => ?_, fun bdev block size => ?_⟩
  · have listed := represents.hashed_iff.mp hashed
    obtain ⟨head, stored, placed, counted⟩ := sound.identified.placed index addr listed
    obtain ⟨found, here, rfl⟩ := represents.heads_of stored
    obtain ⟨link, pointer, pointed⟩ := represents.chains.read_back listed
    rw [BufferHash.pprevHash_eq here] at pointer
    exact ⟨found, link, here, placed, counted, pointer, pointed⟩
  · intro index other addr twin head copy hashed hashed' stored stored' equal
    have contents := congrFun represents.contents
    exact sound.identified.eq_of_key (represents.hashed_iff.mp hashed) (represents.hashed_iff.mp hashed')
      ((contents addr).trans (BufferHash.contents_eq stored))
      ((contents twin).trans (BufferHash.contents_eq stored')) equal
  · obtain ⟨index, listed⟩ := sound.identified.listed_of_held held
    exact ⟨index, represents.hashed_iff.mpr listed⟩
  · obtain ⟨later, soundLater, effect⟩ := sound.step step
    have representsLater := soundLater.represents
    refine ⟨fun bdev block size addr returns => ?_, fun index addr hashed gone => ?_⟩
    · obtain ⟨listed, head, stored, key⟩ := effect.returned bdev block size addr returns
      obtain ⟨found, here, rfl⟩ := representsLater.heads_of stored
      exact ⟨representsLater.hashed_iff.mpr listed, found, here, key⟩
    · rcases effect.kept index addr (represents.hashed_iff.mp hashed) with still | ⟨same, head, stored, last⟩
      · rcases gone with unlinked | freed
        · exact absurd (representsLater.hashed_iff.mpr still) unlinked
        · exact absurd still (representsLater.unlisted freed index)
      · obtain ⟨found, here, rfl⟩ := represents.heads_of stored
        exact ⟨same, found, here, last⟩
  · exact represents.sections_return

/-! Two callers miss the same block, and the second one shares the buffer of the first. -/

def racingAlloc (addr : Nat) : BufferAllocation :=
  { head := some addr, data := some (addr + 1000), bio := true, vec := true }

def racingAllocated (system : BufferSystem Nat) (caller addr : Nat) : BufferSystem Nat :=
  let given := (system.table.allocBufferHead (racingAlloc addr) 5 7 512).getD (addr, system.table)
  { system with table := given.2 }.goto caller (.allocated 5 7 512 addr)

def racingAdded (system : BufferSystem Nat) (caller addr returned : Nat) : BufferSystem Nat :=
  let given := (system.table.addBuffer 2 addr 5 7 512).getD (addr, system.table)
  ({ system with table := given.2 }.goto caller .outside).setUnreleased returned
    (system.unreleased returned + 1)

def racingMissed : BufferSystem Nat :=
  (BufferSystem.initial.goto 0 (.missed 5 7 512)).goto 1 (.missed 5 7 512)

def racingBoth : BufferSystem Nat := racingAllocated (racingAllocated racingMissed 0 100) 1 101

def raced : BufferSystem Nat := racingAdded (racingAdded racingBoth 0 100 100) 1 101 100

theorem racingAdded_step (mine : system.stage caller = .allocated 5 7 512 addr)
    (returns : (system.table.addBuffer 2 addr 5 7 512).map Prod.fst = some returned) :
    BufferStep system (.addBuffer caller 5 7 512 returned) (racingAdded system caller addr returned) := by
  obtain ⟨⟨_, table⟩, done, rfl⟩ := Option.map_eq_some_iff.mp returns
  simpa only [racingAdded, done, Option.getD_some] using BufferStep.added mine done

theorem raced_run : ∃ trace, Run BufferStep BufferSystem.initial trace raced := by
  have missed : Run BufferStep BufferSystem.initial _ racingMissed :=
    .snoc (.snoc .nil (@BufferStep.miss Nat _ _ 0 5 7 512 1 _ rfl rfl))
      (@BufferStep.miss Nat _ _ 1 5 7 512 1 _ rfl rfl)
  have first : BufferStep racingMissed (.allocBufferHead 0 (racingAlloc 100))
      (racingAllocated racingMissed 0 100) :=
    .allocated rfl (fun addr given => by rfl) rfl
  have second : BufferStep (racingAllocated racingMissed 0 100) (.allocBufferHead 1 (racingAlloc 101))
      racingBoth :=
    .allocated rfl (fun addr given => by cases given; rfl) rfl
  have third : BufferStep racingBoth (.addBuffer 0 5 7 512 100) (racingAdded racingBoth 0 100 100) :=
    racingAdded_step rfl (by decide +kernel)
  have fourth : BufferStep (racingAdded racingBoth 0 100 100) (.addBuffer 1 5 7 512 100) raced :=
    racingAdded_step rfl (by decide +kernel)
  exact ⟨_, .snoc (.snoc (.snoc (.snoc missed first) second) third) fourth⟩

theorem buffer_cache_run_race :
    ∃ head link, raced.table.heads 100 = some head ∧ hash head.bdev head.blocknr = hash 5 7 ∧
      head.count = raced.unreleased 100 ∧ head.pprevHash = some link ∧
      link.read raced.table.nextHash raced.table.bhHash = some 100 := by
  have linked : Linked raced.table.nextHash (raced.table.bhHash (hash 5 7)) [100] none := by decide +kernel
  obtain ⟨trace, run⟩ := raced_run
  exact (buffer_cache_run run).2.1 (hash 5 7) 100 ⟨[100], linked, mem_singleton_self 100⟩

example : raced.unreleased 100 = 2 ∧ raced.table.heads 101 = none := by decide

end Rucix.Fs
