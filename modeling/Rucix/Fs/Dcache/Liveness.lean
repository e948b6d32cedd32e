import Rucix.Fs.Dcache.Model

namespace Rucix.Fs.Dcache

open Function List

open Rucix.Fs.Ramfs (Name slash dot dotdot components dHash)

/-! What `path_walk` leaves allocated.

A `lookup` that returns the dentry it was given makes the walk free that dentry
and go on with it.
-/

namespace DentryCache

variable {dcache after : DentryCache} {addr dentry : Nat} {name : Name} {miss : Miss}
  {misses : List Miss}

/-- Whatever is linked or pointed to is allocated. -/
structure Live (dcache : DentryCache) : Prop where
  root : dcache.Allocated dcache.root
  cwd : ∀ addr ∈ dcache.cwd, dcache.Allocated addr
  hashed : ∀ index, ∀ addr ∈ dcache.table index, dcache.Allocated addr
  parent : ∀ addr entry, dcache.dentries addr = some entry →
    ∀ above ∈ entry.parent, dcache.Allocated above
  child : ∀ addr entry, dcache.dentries addr = some entry →
    ∀ below ∈ entry.subdirs, dcache.Allocated below

/-- An address that is handed out is not in use. -/
structure Fresh (dcache : DentryCache) (misses : List Miss) : Prop where
  unused : ∀ miss ∈ misses, ∀ addr ∈ miss.memory, ¬dcache.Allocated addr
  distinct : misses.Pairwise fun earlier later =>
    ∀ addr ∈ earlier.memory, addr ∈ later.memory → earlier.Replaces

theorem allocated_iff : dcache.Allocated addr ↔ ∃ entry, dcache.dentries addr = some entry :=
  Option.ne_none_iff_exists'

theorem scan_defined
    (allocated : ∀ addr ∈ chain, dcache.Allocated addr) :
    ∃ result, dcache.scan parent name chain = some result ∧ ∀ child ∈ result, child ∈ chain := by
  induction chain with
  | nil => exact ⟨none, rfl, nofun⟩
  | cons first rest ih =>
    obtain ⟨entry, stored⟩ := allocated_iff.mp (allocated first mem_cons_self)
    obtain ⟨result, scanned, member⟩ := ih fun addr later => allocated addr (mem_cons_of_mem _ later)
    simp only [scan, stored]
    split
    · exact ⟨some first, rfl, fun child same => by cases same; exact mem_cons_self⟩
    · exact ⟨result, scanned, fun child same => mem_cons_of_mem _ (member child same)⟩

section

variable {parent : Nat} {dir : Dentry}

/-- The entries after a dentry was linked to its parent. -/
theorem withChild_entry (stored : dcache.dentries parent = some dir) (different : addr ≠ parent)
    (found : (dcache.withChild parent dir addr name).dentries other = some entry) :
    (other = addr ∧ entry.parent = some parent ∧ entry.subdirs = []) ∨
      ∃ old, dcache.dentries other = some old ∧ entry.parent = old.parent ∧
        ∀ below ∈ entry.subdirs, below = addr ∨ below ∈ old.subdirs := by
  by_cases here : other = parent
  · subst here
    simp only [withChild, update_self, Option.some.injEq] at found
    subst found
    exact .inr ⟨dir, stored, rfl, fun below member => mem_cons.mp member⟩
  · simp only [withChild, update_of_ne here] at found
    by_cases new : other = addr
    · subst new
      rw [update_self] at found
      cases found
      exact .inl ⟨rfl, rfl, rfl⟩
    · rw [update_of_ne new] at found
      exact .inr ⟨entry, found, rfl, fun below member => .inr member⟩

theorem withChild_allocated (stored : dcache.dentries parent = some dir) :
    (dcache.withChild parent dir addr name).Allocated other ↔ other = addr ∨ dcache.Allocated other := by
  by_cases here : other = parent
  · subst here
    simp [Allocated, withChild, stored]
  · by_cases new : other = addr
    · subst new
      simp [Allocated, withChild, here]
    · simp [Allocated, withChild, here, new]

end

section

variable {entry : Dentry} {inode : Option Inode}

theorem withHash_entry (stored : dcache.dentries addr = some entry)
    (found : (dcache.withHash addr entry inode).dentries other = some new) :
    ∃ old, dcache.dentries other = some old ∧ new.parent = old.parent ∧ new.subdirs = old.subdirs := by
  simp only [withHash] at found
  by_cases here : other = addr
  · subst here
    rw [update_self] at found
    cases found
    exact ⟨entry, stored, rfl, rfl⟩
  · rw [update_of_ne here] at found
    exact ⟨new, found, rfl, rfl⟩

theorem withHash_allocated (stored : dcache.dentries addr = some entry) :
    (dcache.withHash addr entry inode).Allocated other ↔ dcache.Allocated other := by
  by_cases here : other = addr
  · subst here
    simp [Allocated, withHash, stored]
  · simp [Allocated, withHash, here]

end

/-- A dentry that was freed, with nothing below it. -/
structure Doomed (dcache : DentryCache) (addr : Nat) : Prop where
  freed : dcache.dentries addr = none
  notRoot : addr ≠ dcache.root
  childless : ∀ other entry, dcache.dentries other = some entry → entry.parent ≠ some addr

theorem Doomed.scan (doomed : dcache.Doomed addr) :
    dcache.scan addr name chain = none ∨ dcache.scan addr name chain = some none := by
  induction chain with
  | nil => exact .inr rfl
  | cons first rest ih =>
    cases stored : dcache.dentries first with
    | none => simp [DentryCache.scan, stored]
    | some entry =>
      have other : ¬(entry.parent = some addr ∧ entry.name = name) := fun same =>
        doomed.childless first entry stored same.1
      simpa only [DentryCache.scan, stored, if_neg other] using ih

/-- From a freed dentry the walk can only stop or access it. -/
theorem Doomed.walk (doomed : dcache.Doomed addr) : walk path dcache addr misses = none ∨
      ∃ result, walk path dcache addr misses = some (result, dcache, misses) ∧
        ∀ found ∈ result, found = addr := by
  induction path with
  | nil => exact .inr ⟨some addr, rfl, fun found same => (Option.some.inj same).symm⟩
  | cons component rest ih =>
    unfold DentryCache.walk
    split_ifs with _ _ _ _ root
    · exact ih
    · exact .inr ⟨none, rfl, nofun⟩
    · exact ih
    · exact absurd root doomed.notRoot
    · rw [doomed.freed]
      exact .inl rfl
    · left
      rw [dLookup]
      rcases doomed.scan with fault | missed
      · rw [fault]
        rfl
      · rw [missed, Option.bind_some]
        simp only [doomed.freed, Option.bind_none]

/-- How a walk ends, for the outcomes it was offered. -/
inductive Outcome (misses : List Miss) : Option (Option Nat × DentryCache × List Miss) → Prop where
  | live {used rest : List Miss} {result : Option Nat} {after : DentryCache}
      (split : misses = used ++ rest) (kept : ∀ miss ∈ used, ¬miss.Replaces) (live : after.Live)
      (allocated : ∀ found ∈ result, after.Allocated found) :
      Outcome misses (some (result, after, rest))
  | fault {used rest : List Miss} {miss : Miss} (split : misses = used ++ miss :: rest)
      (replaces : miss.Replaces) : Outcome misses none
  | freed {used rest : List Miss} {miss : Miss} {result : Option Nat} {after : DentryCache}
      (split : misses = used ++ miss :: rest) (replaces : miss.Replaces)
      (freed : ∀ found ∈ result, ¬after.Allocated found) :
      Outcome misses (some (result, after, rest))

theorem Outcome.cons (outcome : Outcome misses ended) (kept : ¬miss.Replaces) : Outcome (miss :: misses) ended := by
  cases outcome with
  | @live used rest _ _ split others live allocated =>
    have longer : miss :: misses = (miss :: used) ++ rest := congrArg (miss :: ·) split
    refine .live longer ?_ live allocated
    intro other member
    rcases mem_cons.mp member with rfl | later
    · exact kept
    · exact others other later
  | @fault used rest last split replaces =>
    have longer : miss :: misses = (miss :: used) ++ last :: rest := congrArg (miss :: ·) split
    exact .fault longer replaces
  | @freed used rest last _ _ split replaces freed =>
    have longer : miss :: misses = (miss :: used) ++ last :: rest := congrArg (miss :: ·) split
    exact .freed longer replaces freed

theorem Doomed.outcome (doomed : dcache.Doomed dentry) (replaces : miss.Replaces) (path : List Name) :
    Outcome (miss :: misses) (DentryCache.walk path dcache dentry misses) := by
  have first : miss :: misses = [] ++ miss :: misses := rfl
  rcases doomed.walk with fault | ⟨result, ended, same⟩
  · rw [fault]
    exact .fault first replaces
  · rw [ended]
    refine .freed first replaces ?_
    intro found member known
    rw [same found member] at known
    exact known doomed.freed

theorem not_replaces (memory : miss.memory = none) : ¬miss.Replaces := by
  intro ⟨handed, _⟩
  rw [memory] at handed
  cases handed

theorem Fresh.rest (fresh : dcache.Fresh (miss :: misses)) (kept : ¬miss.Replaces) (memory : miss.memory = some addr)
    (allocated : ∀ other, after.Allocated other ↔ other = addr ∨ dcache.Allocated other) : after.Fresh misses where
  unused := by
    intro later member other handed known
    rcases (allocated other).mp known with rfl | old
    · exact kept ((pairwise_cons.mp fresh.distinct).1 later member other memory handed)
    · exact fresh.unused later (mem_cons_of_mem _ member) other handed old
  distinct := (pairwise_cons.mp fresh.distinct).2

namespace Live

variable {parent : Nat} {dir entry : Dentry} {inode : Option Inode} (live : dcache.Live)
include live

theorem headAllocated : dcache.HeadAllocated (dcache.table index) := fun first head =>
  live.hashed index first (mem_of_mem_head? head)

theorem dLookup (parent : Nat) :
    ∃ result, dcache.dLookup parent name = some result ∧ ∀ child ∈ result, dcache.Allocated child := by
  obtain ⟨result, scanned, member⟩ := scan_defined (live.hashed _)
  exact ⟨result, scanned, fun child same => live.hashed _ child (member child same)⟩

theorem withChild (stored : dcache.dentries parent = some dir) (different : addr ≠ parent) :
    (dcache.withChild parent dir addr name).Live where
  root := (withChild_allocated stored).mpr (.inr live.root)
  cwd := fun other member => (withChild_allocated stored).mpr (.inr (live.cwd other member))
  hashed := fun index other member =>
    (withChild_allocated stored).mpr (.inr (live.hashed index other member))
  parent := by
    intro other entry found above member
    rw [withChild_allocated stored]
    rcases withChild_entry stored different found with ⟨_, owner, _⟩ | ⟨old, kept, owner, _⟩
    · rw [owner] at member
      cases member
      exact .inr (allocated_iff.mpr ⟨dir, stored⟩)
    · rw [owner] at member
      exact .inr (live.parent other old kept above member)
  child := by
    intro other entry found below member
    rw [withChild_allocated stored]
    rcases withChild_entry stored different found with ⟨_, _, none⟩ | ⟨old, kept, _, children⟩
    · rw [none] at member
      cases member
    · exact (children below member).imp id fun listed => live.child other old kept below listed

theorem allocDentry (stored : dcache.dentries parent = some dir) :
    dcache.allocDentry parent name (some addr) =
      some (some addr, dcache.withChild parent dir addr name) := by
  have head : dcache.HeadAllocated dir.subdirs := fun first member =>
    live.child parent dir stored first (mem_of_mem_head? member)
  simp only [DentryCache.allocDentry, stored, if_pos head]

theorem withHash (stored : dcache.dentries addr = some entry) :
    (dcache.withHash addr entry inode).Live where
  root := (withHash_allocated stored).mpr live.root
  cwd := fun other member => (withHash_allocated stored).mpr (live.cwd other member)
  hashed := by
    intro index other member
    rw [withHash_allocated stored]
    simp only [DentryCache.withHash, update_apply] at member
    split at member
    · rcases mem_cons.mp member with rfl | listed
      · exact allocated_iff.mpr ⟨entry, stored⟩
      · exact live.hashed _ other listed
    · exact live.hashed index other member
  parent := by
    intro other new found above member
    obtain ⟨old, kept, owner, _⟩ := withHash_entry stored found
    rw [withHash_allocated stored]
    exact live.parent other old kept above (owner ▸ member)
  child := by
    intro other new found below member
    obtain ⟨old, kept, _, children⟩ := withHash_entry stored found
    rw [withHash_allocated stored]
    exact live.child other old kept below (children ▸ member)

theorem dAdd (stored : dcache.dentries addr = some entry) :
    dcache.dAdd addr inode = some (dcache.withHash addr entry inode) := by
  simp only [DentryCache.dAdd, stored, if_pos (live.headAllocated)]

theorem doomed (stored : dcache.dentries dentry = some dir)
    (unallocated : ¬dcache.Allocated addr) (different : addr ≠ dentry)
    (fresh : (dcache.withChild dentry dir addr name).dentries addr = some entry) :
    (((dcache.withChild dentry dir addr name).withHash addr entry inode).kfree addr).Doomed addr := by
  constructor
  · exact update_self ..
  · intro same
    exact unallocated (same ▸ live.root)
  · intro other entry found owner
    have elsewhere : other ≠ addr := by
      rintro rfl
      simp [kfree] at found
    simp only [kfree, update_of_ne elsewhere] at found
    obtain ⟨linkedEntry, linkedFound, same, _⟩ := withHash_entry fresh found
    rcases withChild_entry stored different linkedFound with ⟨here, _⟩ | ⟨old, kept, above, _⟩
    · exact elsewhere here
    · rw [same, above] at owner
      exact unallocated (live.parent other old kept addr owner)

theorem resolve (known : dcache.Allocated dentry) (name : Name)
    (unused : ∀ addr ∈ miss.memory, ¬dcache.Allocated addr) :
    (miss.memory = none ∧ dcache.resolve dentry name miss = some (none, dcache)) ∨
      ∃ addr after, miss.memory = some addr ∧
        dcache.resolve dentry name miss = some (some addr, after) ∧
        ((miss.Replaces ∧ after.Doomed addr) ∨
          (¬miss.Replaces ∧ after.Live ∧
            ∀ other, after.Allocated other ↔ other = addr ∨ dcache.Allocated other)) := by
  obtain ⟨memory, answer⟩ := miss
  cases memory with
  | none => exact .inl ⟨rfl, rfl⟩
  | some addr =>
    obtain ⟨dir, stored⟩ := allocated_iff.mp known
    have unallocated : ¬dcache.Allocated addr := unused addr rfl
    have different : addr ≠ dentry := by
      rintro rfl
      exact unallocated known
    have linked : (dcache.withChild dentry dir addr name).Live := live.withChild stored different
    obtain ⟨entry, fresh⟩ := allocated_iff.mp
      ((withChild_allocated stored).mpr (.inl rfl) :
        (dcache.withChild dentry dir addr name).Allocated addr)
    refine .inr ⟨addr, ?_⟩
    simp only [DentryCache.resolve, live.allocDentry stored, Option.bind_some]
    cases answer with
    | hashed =>
      refine ⟨(dcache.withChild dentry dir addr name).withHash addr entry none, trivial, ?_,
        .inr ⟨?_, linked.withHash fresh, ?_⟩⟩
      · simp only [lookup, linked.dAdd fresh, Option.map_some]
      · intro ⟨_, inode, same⟩
        cases same
      · intro other
        rw [withHash_allocated fresh, withChild_allocated stored]
    | missing =>
      refine ⟨_, trivial, rfl, .inr ⟨?_, linked, fun other => withChild_allocated stored⟩⟩
      intro ⟨_, inode, same⟩
      cases same
    | found inode =>
      refine ⟨((dcache.withChild dentry dir addr name).withHash addr entry inode).kfree addr, trivial, ?_,
        .inl ⟨⟨rfl, inode, rfl⟩, live.doomed stored unallocated different fresh⟩⟩
      simp only [lookup, linked.dAdd fresh, Option.map_some]

theorem walk (known : dcache.Allocated dentry) (fresh : dcache.Fresh misses)
    (path : List Name) : Outcome misses (walk path dcache dentry misses) := by
  induction path generalizing dcache dentry misses with
  | nil =>
    refine .live (nil_append _).symm nofun live ?_
    intro found same
    cases same
    exact known
  | cons component rest ih =>
    have failed : Outcome misses (some (none, dcache, misses)) :=
      .live (nil_append _).symm nofun live nofun
    unfold DentryCache.walk
    split_ifs
    · exact ih live known fresh
    · exact failed
    · exact ih live known fresh
    · exact ih live known fresh
    · obtain ⟨entry, stored⟩ := allocated_iff.mp known
      rw [stored]
      refine ih live ?_ fresh
      cases above : entry.parent with
      | none => exact known
      | some parent => exact live.parent dentry entry stored parent above
    · obtain ⟨result, scanned, member⟩ := live.dLookup dentry
      rw [scanned]
      cases result with
      | some child => exact ih live (member child rfl) fresh
      | none =>
        obtain ⟨entry, stored⟩ := allocated_iff.mp known
        simp only [stored, Option.bind_some]
        split
        · exact failed
        · cases misses with
          | nil => exact failed
          | cons miss misses =>
            rcases live.resolve known component (fresh.unused miss mem_cons_self) with
              ⟨memory, resolved⟩ | ⟨addr, after, memory, resolved, ends⟩
            · simp only [resolved]
              have stopped : Outcome misses (some (none, dcache, misses)) :=
                .live (nil_append _).symm nofun live nofun
              exact stopped.cons (not_replaces memory)
            · simp only [resolved]
              rcases ends with ⟨replaces, doomed⟩ | ⟨kept, next, allocated⟩
              · exact doomed.outcome replaces rest
              · have here : after.Allocated addr := (allocated addr).mpr (.inl rfl)
                exact (ih next here (fresh.rest kept memory allocated)).cons kept

theorem pathWalk (fresh : dcache.Fresh misses) (path : List UInt8) :
    Outcome misses (dcache.pathWalk path misses) := by
  refine live.walk ?_ fresh (components path)
  rw [startOf]
  split
  · exact live.root
  · cases held : dcache.cwd with
    | none => exact live.root
    | some cwd => exact live.cwd cwd held

end Live

/-- If no `lookup` returns a dentry, the walk only accesses allocated dentries, and what
it returns and all that is linked are allocated.  If it returns 0, this is so exactly if
no `lookup` that it made returned a dentry. -/
theorem path_walk_live (live : dcache.Live) (fresh : dcache.Fresh misses) (path : List UInt8) :
    ((∀ miss ∈ misses, ¬miss.Replaces) → ∃ result after rest,
      dcache.pathWalk path misses = some (result, after, rest) ∧ after.Live ∧
        ∀ found ∈ result, after.Allocated found) ∧
      ∀ found after rest, dcache.pathWalk path misses = some (some found, after, rest) →
        ∃ used, misses = used ++ rest ∧
          ((after.Allocated found ∧ ∀ index, ∀ addr ∈ after.table index, after.Allocated addr) ↔
            ∀ miss ∈ used, ¬miss.Replaces) := by
  have outcome := live.pathWalk fresh path
  constructor
  · intro none
    generalize dcache.pathWalk path misses = ended at outcome
    have absurd' : ∀ {used rest : List Miss} {miss : Miss}, misses = used ++ miss :: rest →
        miss.Replaces → False := by
      intro used rest miss split replaces
      refine none miss ?_ replaces
      rw [split]
      exact mem_append_right _ mem_cons_self
    cases outcome with
    | live split kept live allocated => exact ⟨_, _, _, rfl, live, allocated⟩
    | fault split replaces => exact (absurd' split replaces).elim
    | freed split replaces => exact (absurd' split replaces).elim
  · intro found after rest returned
    rw [returned] at outcome
    cases outcome with
    | @live used _ _ _ split kept live allocated =>
      exact ⟨used, split, fun _ => kept, fun _ => ⟨allocated found rfl, live.hashed⟩⟩
    | @freed used _ miss _ _ split replaces freed =>
      refine ⟨used ++ [miss], by rw [split, append_assoc]; rfl, ?_, ?_⟩
      · intro ⟨known, _⟩
        exact absurd known (freed found rfl)
      · intro kept
        exact absurd replaces (kept miss (mem_append_right _ mem_cons_self))

def mounted : DentryCache where
  root := 1
  cwd := none
  dentries := update (fun _ => none) 1
    (some { parent := none, name := [slash], inode := some { lookup := true }, subdirs := [] })
  table := fun _ => []

theorem mounted_entry (found : mounted.dentries addr = some entry) : entry.parent = none ∧ entry.subdirs = [] := by
  by_cases here : addr = 1
  · subst here
    cases found
    exact ⟨rfl, rfl⟩
  · simp only [mounted, update_of_ne here] at found
    cases found

theorem mounted_live : mounted.Live where
  root := by decide
  cwd := nofun
  hashed := nofun
  parent := by
    intro addr entry found above member
    rw [(mounted_entry found).1] at member
    cases member
  child := by
    intro addr entry found below member
    rw [(mounted_entry found).2] at member
    cases member

theorem mounted_fresh : mounted.Fresh [⟨some 2, answer⟩] where
  unused := by
    intro miss member addr handed
    cases mem_singleton.mp member
    cases handed
    decide
  distinct := pairwise_singleton ..

/-- `/a` in a ramfs. -/
theorem path_walk_live_hashed :
    ∃ result after rest, mounted.pathWalk [47, 97] [⟨some 2, .hashed⟩] = some (result, after, rest) ∧
      after.Live ∧ ∀ found ∈ result, after.Allocated found := by
  refine (path_walk_live mounted_live mounted_fresh [47, 97]).1 ?_
  intro miss member ⟨_, inode, found⟩
  cases mem_singleton.mp member
  cases found

/-- The walk of `/a` in a FAT32 file system returns a freed dentry, which stays in its
hash chain, and the walk of `/a/b` accesses it. -/
theorem found_dentry_freed :
    ∃ after, mounted.pathWalk [47, 97] [⟨some 2, .found (some ⟨true⟩)⟩] = some (some 2, after, []) ∧
      ¬after.Allocated 2 ∧ 2 ∈ after.table (dHash 1 [97]) ∧
      mounted.pathWalk [47, 97, 47, 98] [⟨some 2, .found (some ⟨true⟩)⟩] = none :=
  ⟨_, rfl, by decide, by decide, rfl⟩

end DentryCache

end Rucix.Fs.Dcache
