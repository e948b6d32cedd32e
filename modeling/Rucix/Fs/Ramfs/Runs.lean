import Rucix.Data.Run
import Rucix.Fs.Ramfs.Lookup

namespace Rucix.Fs.Ramfs

open Rucix.Data Function

/-! Runs of the calls that read and create names.

`vfs_mkdir` and `vfs_mknod` do not ask whether the name is there, and a lookup of a
missing name, or a creation without memory for its inode, leaves an entry without one.
-/

variable {vfs after : Vfs} {parent addr : Nat} {name : Name} {dir entry : Dentry} {path : List UInt8}
  {pool : List (Option Nat)} {flags mode dev : Nat} {answers : Vfs.OpenAnswers} {copied inode : Bool}

inductive VfsOp where
  | open (path : List UInt8) (flags mode : Nat) (answers : Vfs.OpenAnswers)
  | mkdir (path : List UInt8) (mode : Nat) (copied inode : Bool)
  | mknod (path : List UInt8) (mode dev : Nat) (inode : Bool)
  | stat (path : List UInt8)
  | lookup (path : List UInt8)
  | readdir (fd : Nat)

/-- The state after a call; `none` is an array overflow in `vfs_mknod`. -/
def Vfs.perform (vfs : Vfs) : VfsOp → Option Vfs
  | .open path flags mode answers => some (vfs.vfsOpen path flags mode answers).2
  | .mkdir path mode copied inode => some (vfs.vfsMkdir path mode copied inode).2
  | .mknod path mode dev inode => (vfs.vfsMknod path mode dev inode).map (·.2)
  | .stat path => some (vfs.vfsStat path).2
  | .lookup path => some (vfs.vfsLookup path).2
  | .readdir fd => some (vfs.vfsReaddir fd).2.2

def VfsStep (vfs : Vfs) (op : VfsOp) (after : Vfs) : Prop := vfs.perform op = some after

def Vfs.KnownPath (vfs : Vfs) (path : List UInt8) : Prop := Known vfs (components path) (vfs.startOf path)

def Vfs.resolved (vfs : Vfs) (path : List UInt8) : Option Nat :=
  resolve vfs (components path) (vfs.startOf path)

def Vfs.KnownParent (vfs : Vfs) (path : List UInt8) : Prop := Known vfs (parentOf path) (vfs.startOf path)

def Vfs.resolvedParent (vfs : Vfs) (path : List UInt8) : Option Nat :=
  resolve vfs (parentOf path) (vfs.startOf path)

/-- A new name in an existing directory, with memory for a dentry and an inode. -/
structure Vfs.NewIn (vfs : Vfs) (parent : Nat) (name : Name) (inode : Bool) : Prop where
  directory : vfs.isDirectory parent = true
  proper : Proper name
  absent : vfs.dLookup parent name = none
  dentry : ∃ addr pool, vfs.pool = some addr :: pool
  inode : inode = true

def Vfs.Creates (vfs : Vfs) (path : List UInt8) (inode : Bool) : Prop :=
  vfs.KnownParent path ∧ ∃ parent, vfs.resolvedParent path = some parent ∧ vfs.NewIn parent (nameOf path) inode

def Careful (vfs : Vfs) : VfsOp → Prop
  | .open path flags _ answers =>
    vfs.freeFds = [] ∨
    (vfs.KnownPath path ∧ (flags &&& oCreat = 0 ∨ vfs.resolved path ≠ none)) ∨
    (flags &&& oCreat ≠ 0 ∧ vfs.Creates path answers.inode)
  | .mkdir path _ _ inode =>
    (vfs.KnownParent path ∧ vfs.resolvedParent path = none) ∨ vfs.Creates path inode
  | .mknod path _ _ inode =>
    slash ∉ path ∨
    ((nameOf path).length < maxFilenameLen ∧ path.length - (nameOf path).length - 1 < maxPathLen ∧
      ((vfs.KnownParent path ∧ ∀ parent, vfs.resolvedParent path = some parent →
        vfs.isDirectory parent = false) ∨ vfs.Creates path inode))
  | .stat path => vfs.KnownPath path
  | .lookup path => vfs.KnownPath path
  | .readdir _ => True

def CarefulStep (vfs : Vfs) (op : VfsOp) (after : Vfs) : Prop := VfsStep vfs op after ∧ Careful vfs op

def Vfs.NamesUnique (vfs : Vfs) : Prop :=
  ∀ parent dir, vfs.dentries parent = some dir → dir.subdirs.Pairwise fun first second =>
    ∀ left right, vfs.dentries first = some left → vfs.dentries second = some right →
      left.inode ≠ none → right.inode ≠ none → left.name ≠ right.name

def Vfs.Exists (vfs : Vfs) (path : List UInt8) : Prop :=
  ∃ addr after, vfs.vfsLookup path = (some addr, after) ∧ after.inodeOf addr ≠ none

/-- A name that exists is not created again: `vfs_open` and `vfs_mknod` fail and change
nothing, and `vfs_mkdir` of it is not careful. -/
def Vfs.KeepsExisting (vfs : Vfs) : Prop :=
  ∀ path, vfs.Exists path →
    (∀ flags mode answers, Careful vfs (.open path flags mode answers) → flags &&& oCreat ≠ 0 →
      flags &&& oExcl ≠ 0 → vfs.vfsOpen path flags mode answers = (-1, vfs)) ∧
    (∀ mode copied inode, ¬Careful vfs (.mkdir path mode copied inode)) ∧
    ∀ mode dev inode, Careful vfs (.mknod path mode dev inode) →
      vfs.vfsMknod path mode dev inode = some (-1, vfs)

/-- A name of one component, of any length. -/
structure Component (name : Name) : Prop where
  nonempty : name ≠ []
  whole : slash ∉ name
  notDot : name ≠ dot
  notDotdot : name ≠ dotdot

/-- A directory that is read from its start until 0 is returned lists the names that
can be looked up in it. -/
def Vfs.ListsNames (vfs : Vfs) : Prop :=
  ∀ path dirAddr fd, vfs.vfsLookup path = (some dirAddr, vfs) → vfs.isDirectory dirAddr = true →
    vfs.fdTable fd = some { dentry := dirAddr, fPos := 0 } →
    ∃ fuel names, (listFrom fd fuel vfs).map (List.map (·.name)) = some (dot :: dotdot :: names) ∧
      names.Nodup ∧ ∀ name, name ∈ names ↔ Component name ∧ vfs.Exists (path ++ slash :: name)

theorem withDentry_parent (different : parent ≠ addr) :
    (vfs.withDentry parent addr dir name pool).dentries parent =
      some { dir with subdirs := addr :: dir.subdirs } := by
  simp [Vfs.withDentry, different]

theorem withDentry_isDirectory (different : parent ≠ addr) (directory : dir.inode.any (·.isDir) = true) :
    (vfs.withDentry parent addr dir name pool).isDirectory parent = true := by
  rw [Vfs.isDirectory, Vfs.inodeOf, withDentry_parent different]
  exact directory

theorem ramfsLookup_new :
    ((vfs.withDentry parent addr dir name pool).ramfsLookup addr).dentries addr =
      some { parent := some parent, name, inode := none, hashed := true, subdirs := [] } := by
  simp [Vfs.ramfsLookup, Vfs.dAdd, Vfs.dRehash, Vfs.withDentry, Vfs.setDentry]

theorem ramfsLookup_isDirectory (different : parent ≠ addr) (directory : dir.inode.any (·.isDir) = true) :
    ((vfs.withDentry parent addr dir name pool).ramfsLookup addr).isDirectory parent = true := by
  simp [Vfs.ramfsLookup, Vfs.dAdd, Vfs.dRehash, Vfs.withDentry, Vfs.setDentry, Vfs.isDirectory, Vfs.inodeOf,
    different, directory]

theorem pathWalk_creates (known : vfs.KnownParent path) (found : vfs.resolvedParent path = some parent)
    (new : vfs.NewIn parent (nameOf path) inode) (stored : vfs.dentries parent = some dir)
    (available : vfs.pool = some addr :: pool) (different : parent ≠ addr) : vfs.pathWalk path =
      (some addr, (vfs.withDentry parent addr dir (nameOf path) pool).ramfsLookup addr) := by
  rw [Vfs.pathWalk, parentOf_nameOf, walk_append, walk_known known]
  rw [Vfs.resolvedParent] at found
  simp only [found]
  rw [walk_single new.proper, Vfs.childNamed, new.absent, new.directory, allocDentry_eq available different stored]
  rfl

theorem vfsResolveParent_known (known : vfs.KnownParent path) :
    vfs.vfsResolveParent path copied = (none, vfs) ∨
    ∃ parent, vfs.resolvedParent path = some parent ∧
      vfs.vfsResolveParent path copied = (some parent, vfs) := by
  rw [Vfs.vfsResolveParent, walk_known known]
  split
  · exact .inl rfl
  · rw [Vfs.resolvedParent]
    cases resolve vfs (parentOf path) (vfs.startOf path) with
    | none => exact .inl rfl
    | some parent =>
      by_cases held : (vfs.inodeOf parent).isSome
      · exact .inr ⟨parent, rfl, by simp only [held, if_true]⟩
      · exact .inl (by simp only [held]; rfl)

theorem vfsOpen_state : ∃ fdTable, (vfs.vfsOpen path flags mode answers).2 =
      { (if vfs.freeFds = [] then vfs else (vfs.openDentry path flags mode answers).2) with fdTable } := by
  fun_cases Vfs.vfsOpen vfs path flags mode answers with
  | case1 full => exact ⟨vfs.fdTable, by rw [if_pos full]⟩
  | case2 free _ _ found | case3 free _ _ found | case4 free _ _ found | case5 free _ _ found
  | case6 free _ _ found | case7 free _ _ found => exact ⟨_, by rw [if_neg free, found]⟩

theorem vfsReaddir_state : ∃ fdTable, (vfs.vfsReaddir fd).2.2 = { vfs with fdTable } := by
  fun_cases Vfs.vfsReaddir vfs fd with
  | case1 | case2 | case3 | case4 => exact ⟨vfs.fdTable, rfl⟩
  | case5 => exact ⟨_, rfl⟩

theorem vfsStat_state : (vfs.vfsStat path).2 = (vfs.vfsLookup path).2 := by
  rw [Vfs.vfsStat]
  split <;> (rename_i found; rw [found])

section

variable (consistent : vfs.Consistent)
include consistent

/-- What a creation finds: its directory, and an address that is not used yet. -/
theorem Vfs.NewIn.elim (new : vfs.NewIn parent name inode) :
    ∃ dir addr pool, vfs.dentries parent = some dir ∧ dir.inode.any (·.isDir) = true ∧
      vfs.pool = some addr :: pool ∧ parent ≠ addr ∧
      ∀ inode, (vfs.withChild parent addr dir name inode pool).Consistent := by
  obtain ⟨dir, stored, directory⟩ := Vfs.isDirectory_some new.directory
  obtain ⟨addr, pool, available⟩ := new.dentry
  exact ⟨dir, addr, pool, stored, directory, available, consistent.ne_allocated available stored,
    fun inode => consistent.withChild available stored new.proper new.absent⟩

theorem Vfs.NewIn.allocDentry (new : vfs.NewIn parent name inode) :
    ∃ addr middle, vfs.allocDentry parent name = (some addr, middle) ∧ middle.isDirectory parent = true ∧
      ∀ mode dev, (middle.ramfsMknod addr mode dev inode).2.Consistent := by
  obtain ⟨dir, addr, pool, stored, directory, available, different, created⟩ := new.elim consistent
  refine ⟨addr, _, allocDentry_eq available different stored, withDentry_isDirectory different directory, ?_⟩
  intro mode dev
  rw [new.inode, ramfsMknod_withDentry]
  exact created _

theorem Vfs.Creates.not_exists (creates : vfs.Creates path inode) :
    ¬vfs.Exists path := by
  rintro ⟨other, after, walked, held⟩
  obtain ⟨known, parent, found, new⟩ := creates
  obtain ⟨dir, addr, pool, stored, -, available, different, -⟩ := new.elim consistent
  cases walked.symm.trans (pathWalk_creates known found new stored available different)
  exact held (by rw [Vfs.inodeOf, ramfsLookup_new]; rfl)

namespace Vfs.Consistent

theorem withFds (fdTable : Nat → Option OpenFile) : { vfs with fdTable }.Consistent :=
  ⟨consistent.root, consistent.cwd, consistent.child, consistent.inodes, consistent.subdirs,
    consistent.unique, consistent.fresh, consistent.distinct⟩

theorem startOf : vfs.startOf path = vfs.root := by
  rw [Vfs.startOf, consistent.cwd, ite_self]

theorem above_allocated (known : vfs.dentries addr ≠ none) : vfs.dentries (vfs.above addr) ≠ none := by
  rw [Vfs.above]
  split
  · exact known
  · obtain ⟨entry, stored⟩ := Option.ne_none_iff_exists'.mp known
    rw [stored, Option.bind_some]
    cases owner : entry.parent with
    | none => exact known
    | some parent =>
      obtain ⟨-, -, dir, held, -⟩ := consistent.child addr entry parent stored owner
      simp [held]

theorem resolve_allocated (known : vfs.dentries start ≠ none)
    (found : resolve vfs names start = some addr) : vfs.dentries addr ≠ none := by
  fun_induction resolve vfs names start with
  | case1 =>
    cases found
    exact known
  | case2 _ _ ih | case4 _ _ _ _ ih => exact ih known found
  | case3 | case7 => cases found
  | case5 _ _ _ _ _ ih => exact ih (consistent.above_allocated known) found
  | case6 _ _ _ _ _ _ _ child hit ih =>
    obtain ⟨entry, stored, -⟩ := dLookup_some hit
    exact ih (by simp [stored]) found

theorem inodeOf_resolved (found : vfs.resolved path = some addr) :
    ∃ inode, vfs.inodeOf addr = some inode := by
  obtain ⟨top, held, -⟩ := consistent.root
  have known : vfs.dentries (vfs.startOf path) ≠ none := by simp [consistent.startOf, held]
  obtain ⟨entry, stored⟩ := Option.ne_none_iff_exists'.mp (consistent.resolve_allocated known found)
  obtain ⟨inode, some⟩ := Option.ne_none_iff_exists'.mp (consistent.inodes addr entry stored)
  exact ⟨inode, by simp [Vfs.inodeOf, stored, some]⟩

theorem openDentry (careful : (vfs.KnownPath path ∧ (flags &&& oCreat = 0 ∨ vfs.resolved path ≠ none)) ∨
      (flags &&& oCreat ≠ 0 ∧ vfs.Creates path answers.inode)) :
    (vfs.openDentry path flags mode answers).2.Consistent := by
  rcases careful with ⟨known, plain⟩ | ⟨creating, known, parent, found, new⟩
  · have walked : vfs.pathWalk path = (vfs.resolved path, vfs) := walk_known known
    rw [Vfs.openDentry, walked]
    cases found : vfs.resolved path with
    | none =>
      have readOnly : flags &&& oCreat = 0 := plain.resolve_right fun present => present found
      simpa only [readOnly, if_true] using consistent
    | some addr =>
      obtain ⟨inode, held⟩ := consistent.inodeOf_resolved found
      simp only [held]
      split
      · exact consistent
      · split <;> exact consistent
  · obtain ⟨dir, addr, pool, stored, directory, available, different, created⟩ := new.elim consistent
    have walked := pathWalk_creates known found new stored available different
    rw [Vfs.openDentry, walked]
    simp only [Vfs.inodeOf, ramfsLookup_new, Option.bind_some, creating,
      ramfsLookup_isDirectory different directory, Vfs.ramfsCreate, new.inode,
      ramfsMknod_ramfsLookup]
    exact created _

theorem vfsOpen (careful : Careful vfs (.open path flags mode answers)) :
    (vfs.vfsOpen path flags mode answers).2.Consistent := by
  obtain ⟨fdTable, state⟩ := vfsOpen_state
  rw [state]
  apply Vfs.Consistent.withFds
  split
  · exact consistent
  · rename_i free
    exact consistent.openDentry (careful.resolve_left free)

theorem vfsMkdir (careful : Careful vfs (.mkdir path mode copied inode)) :
    vfs.vfsMkdir path mode copied inode = (-1, vfs) ∨
      vfs.Creates path inode ∧ (vfs.vfsMkdir path mode copied inode).2.Consistent := by
  have known : vfs.KnownParent path := careful.elim And.left And.left
  rw [Vfs.vfsMkdir]
  rcases vfsResolveParent_known known with unresolved | ⟨parent, found, resolved⟩
  · exact .inl (by rw [unresolved])
  · rcases careful with ⟨-, missing⟩ | ⟨-, other, reached, new⟩
    · cases missing.symm.trans found
    · cases reached.symm.trans found
      obtain ⟨addr, middle, allocated, directory, created⟩ := new.allocDentry consistent
      refine .inr ⟨⟨known, parent, found, new⟩, ?_⟩
      simp only [resolved, allocated, directory]
      exact created _ _

theorem vfsMknod (careful : Careful vfs (.mknod path mode dev inode)) :
    vfs.vfsMknod path mode dev inode = some (-1, vfs) ∨
      vfs.Creates path inode ∧
        ∃ result after, vfs.vfsMknod path mode dev inode = some (result, after) ∧ after.Consistent := by
  rw [Vfs.vfsMknod, Vfs.mknodParent]
  by_cases inside : slash ∉ path
  · rw [if_pos inside]
    exact .inl rfl
  · obtain ⟨nameFits, pathFits, creating⟩ := careful.resolve_left inside
    rw [if_neg inside, if_neg (by omega)]
    rcases creating with ⟨known, plain⟩ | ⟨known, parent, found, new⟩
    · rw [walk_known known]
      cases found : resolve vfs (parentOf path) (vfs.startOf path) with
      | none => exact .inl rfl
      | some parent => exact .inl (if_pos (plain parent found))
    · obtain ⟨addr, middle, allocated, directory, created⟩ := new.allocDentry consistent
      refine .inr ⟨⟨known, parent, found, new⟩, ?_⟩
      rw [Vfs.resolvedParent] at found
      rw [walk_known known, found]
      simp only [new.directory, allocated]
      exact ⟨_, _, rfl, created mode dev⟩

theorem namesUnique : vfs.NamesUnique := by
  intro parent dir stored
  obtain ⟨nodup, members⟩ := consistent.subdirs parent dir stored
  refine nodup.imp_of_mem ?_
  intro first second inFirst inSecond different left right knownLeft knownRight _ _ same
  refine different ?_
  obtain ⟨entry, held, below⟩ := members first inFirst
  cases held.symm.trans knownLeft
  obtain ⟨other, also, beside⟩ := members second inSecond
  cases also.symm.trans knownRight
  exact consistent.unique first second left right parent knownLeft knownRight below beside same

theorem keepsExisting : vfs.KeepsExisting := by
  intro path present
  refine ⟨fun flags mode answers careful creating exclusive => ?_, fun mode copied inode careful => ?_,
    fun mode dev inode careful => ?_⟩
  · rcases careful with full | ⟨known, -⟩ | ⟨-, creates⟩
    · rw [Vfs.vfsOpen, if_pos full]
    · have walked : vfs.pathWalk path = (vfs.resolved path, vfs) := walk_known known
      obtain ⟨addr, after, found, held⟩ := present
      obtain ⟨resolved, rfl⟩ := Prod.mk.inj (walked.symm.trans found)
      obtain ⟨inode, some⟩ := Option.ne_none_iff_exists'.mp held
      have refused : vfs.openDentry path flags mode answers = (.error (-1), vfs) := by
        rw [Vfs.openDentry, walked, resolved]
        simp only [some]
        exact if_pos ⟨creating, exclusive⟩
      rw [Vfs.vfsOpen, refused, ite_self]
    · exact absurd present (creates.not_exists consistent)
  · rcases careful with ⟨known, missing⟩ | creates
    · obtain ⟨addr, after, found, -⟩ := present
      rw [Vfs.vfsLookup, Vfs.pathWalk, parentOf_nameOf, walk_append, walk_known known, ← Vfs.resolvedParent,
        missing] at found
      cases found
    · exact creates.not_exists consistent present
  · exact (consistent.vfsMknod careful).resolve_right fun made => made.1.not_exists consistent present

theorem lookup_below (leads : vfs.vfsLookup path = (some dirAddr, vfs)) (whole : slash ∉ name) :
    vfs.vfsLookup (path ++ slash :: name) = walk [name] vfs dirAddr := by
  rw [Vfs.vfsLookup, Vfs.pathWalk, consistent.startOf] at leads ⊢
  rw [components_append, components_of_whole whole, walk_append, leads]

theorem reported_child (stored : vfs.dentries addr = some entry) (owner : entry.parent = some parent) :
    vfs.reported addr = entry.name := by
  obtain ⟨proper, -⟩ := consistent.child addr entry parent stored owner
  have short := proper.short
  rw [Vfs.reported, stored]
  exact List.take_of_length_le (by simp only [Option.map_some, Option.getD_some]; omega)

theorem mem_reported (stored : vfs.dentries parent = some dir) :
    name ∈ dir.subdirs.map vfs.reported ↔
      ∃ child entry, vfs.dentries child = some entry ∧ entry.parent = some parent ∧ entry.name = name := by
  rw [List.mem_map]
  constructor
  · rintro ⟨child, member, reported⟩
    obtain ⟨entry, held, owner⟩ := (consistent.subdirs parent dir stored).2 child member
    exact ⟨child, entry, held, owner, (consistent.reported_child held owner).symm.trans reported⟩
  · rintro ⟨child, entry, held, owner, named⟩
    obtain ⟨-, -, holder, known, member⟩ := consistent.child child entry parent held owner
    cases known.symm.trans stored
    exact ⟨child, member, (consistent.reported_child held owner).trans named⟩

theorem reported_nodup (stored : vfs.dentries parent = some dir) :
    (dir.subdirs.map vfs.reported).Nodup := by
  obtain ⟨nodup, members⟩ := consistent.subdirs parent dir stored
  refine List.Nodup.map_on (fun first inFirst second inSecond same => ?_) nodup
  obtain ⟨left, knownLeft, below⟩ := members first inFirst
  obtain ⟨right, knownRight, beside⟩ := members second inSecond
  rw [consistent.reported_child knownLeft below, consistent.reported_child knownRight beside] at same
  exact consistent.unique first second left right parent knownLeft knownRight below beside same

theorem exists_below_iff (leads : vfs.vfsLookup path = (some dirAddr, vfs))
    (directory : vfs.isDirectory dirAddr = true) :
    Component name ∧ vfs.Exists (path ++ slash :: name) ↔
      ∃ child entry, vfs.dentries child = some entry ∧ entry.parent = some dirAddr ∧ entry.name = name := by
  constructor
  · rintro ⟨component, present⟩
    rw [Vfs.Exists, consistent.lookup_below leads component.whole] at present
    by_cases short : name.length < 256
    · have proper : Proper name :=
        ⟨component.nonempty, component.whole, short, component.notDot, component.notDotdot⟩
      exact (consistent.walk_single_inode directory proper).mp present
    · obtain ⟨child, after, walked, -⟩ := present
      rw [walk, if_neg component.nonempty, if_pos (by omega)] at walked
      cases walked
  · rintro ⟨child, entry, stored, owner, named⟩
    have proper : Proper name := named ▸ (consistent.child child entry dirAddr stored owner).1
    refine ⟨⟨proper.nonempty, proper.whole, proper.notDot, proper.notDotdot⟩, ?_⟩
    rw [Vfs.Exists, consistent.lookup_below leads proper.whole]
    exact (consistent.walk_single_inode directory proper).mpr ⟨child, entry, stored, owner, named⟩

theorem listsNames : vfs.ListsNames := by
  intro path dirAddr fd leads directory opened
  obtain ⟨dir, stored, isDir⟩ := Vfs.isDirectory_some directory
  have positioned : vfs.atPosition fd dirAddr 0 = vfs := by
    rw [Vfs.atPosition, ← opened, update_eq_self]
  have members : ∀ child ∈ dir.subdirs, ∃ entry, vfs.dentries child = some entry := by
    intro child member
    obtain ⟨entry, held, -⟩ := (consistent.subdirs dirAddr dir stored).2 child member
    exact ⟨entry, held⟩
  refine ⟨dir.subdirs.length + 3, dir.subdirs.map vfs.reported, ?_, consistent.reported_nodup stored, ?_⟩
  · have listed := listFrom_start fd stored isDir members
    rwa [positioned] at listed
  · intro name
    rw [consistent.mem_reported stored, consistent.exists_below_iff leads directory]

end Vfs.Consistent

theorem CarefulStep.keeps (step : CarefulStep vfs op after) :
    after.Consistent := by
  obtain ⟨performed, careful⟩ := step
  cases op with
  | «open» path flags mode answers =>
    cases performed
    exact consistent.vfsOpen careful
  | mkdir path mode copied inode =>
    cases performed
    rcases consistent.vfsMkdir careful with failed | ⟨-, made⟩
    · rwa [failed]
    · exact made
  | mknod path mode dev inode =>
    obtain ⟨⟨result, final⟩, done, same⟩ := Option.map_eq_some_iff.mp performed
    cases same
    rcases consistent.vfsMknod careful with failed | ⟨-, other, after, made, holds⟩
    · cases failed.symm.trans done
      exact consistent
    · cases made.symm.trans done
      exact holds
  | stat path =>
    cases performed
    have walked : vfs.vfsLookup path = (vfs.resolved path, vfs) := walk_known careful
    rw [vfsStat_state, walked]
    exact consistent
  | lookup path =>
    cases performed
    have walked : vfs.vfsLookup path = (vfs.resolved path, vfs) := walk_known careful
    rw [walked]
    exact consistent
  | readdir fd =>
    cases performed
    obtain ⟨fdTable, state⟩ := vfsReaddir_state
    rw [state]
    exact consistent.withFds fdTable

end

theorem ramfsMount_consistent (unused : some root ∉ pool) (distinct : (pool.filterMap id).Nodup) :
    (ramfsMount root pool).Consistent := by
  have only : ∀ {addr entry}, (ramfsMount root pool).dentries addr = some entry →
      entry.parent = none ∧ entry.inode ≠ none ∧ entry.subdirs = [] := by
    intro addr entry stored
    by_cases here : addr = root
    · simp only [ramfsMount, here, update_self, Option.some.injEq] at stored
      subst stored
      exact ⟨rfl, Option.some_ne_none _, rfl⟩
    · simp [ramfsMount, here] at stored
  have top : ∃ dir, (ramfsMount root pool).dentries root = some dir ∧ dir.parent = none ∧
      dir.inode.any (·.isDir) = true := by
    simp only [ramfsMount, update_self]
    decide
  refine ⟨top, rfl, fun addr entry parent stored owner => ?_,
    fun addr entry stored => (only stored).2.1, fun parent dir stored => ?_,
    fun first second left right parent stored _ owner => ?_, fun addr listed => ?_, distinct⟩
  · cases (only stored).1.symm.trans owner
  · rw [(only stored).2.2]
    exact ⟨List.nodup_nil, fun _ member => nomatch member⟩
  · cases (only stored).1.symm.trans owner
  · have different : addr ≠ root := fun same => unused (same ▸ listed)
    simp [ramfsMount, different]

/-- In every state that careful calls reach from a mounted ramfs, names are unique,
existing names are kept, and listings agree with lookups. -/
theorem ramfs_names_unique_and_listed {root : Nat} {ops : List VfsOp} (unused : some root ∉ pool)
    (distinct : (pool.filterMap id).Nodup) (run : Run CarefulStep (ramfsMount root pool) ops vfs) :
    vfs.NamesUnique ∧ vfs.KeepsExisting ∧ vfs.ListsNames := by
  have consistent : vfs.Consistent := run.invariant (ramfsMount_consistent unused distinct)
    fun before op after holds step => step.keeps holds
  exact ⟨consistent.namesUnique, consistent.keepsExisting, consistent.listsNames⟩

def Vfs.next (vfs : Vfs) (op : VfsOp) : Vfs := (vfs.perform op).getD vfs

def freshMount : Vfs := ramfsMount 1 [some 2, some 3]

def allGranted : Vfs.OpenAnswers := { copied := true, inode := true, file := true, opened := 0 }

def carefulOps : List VfsOp :=
  [.mkdir [47, 97] 0o755 true true, .open [47, 97, 47, 98] (oCreat ||| oExcl) 0o644 allGranted,
    .open [47, 97] oDirectory 0 allGranted]

theorem ramfs_names_unique_and_listed_file :
    Run CarefulStep freshMount carefulOps (carefulOps.foldl Vfs.next freshMount) ∧
    (carefulOps.foldl Vfs.next freshMount).fdTable 1 = some { dentry := 2, fPos := 0 } ∧
    (carefulOps.foldl Vfs.next freshMount).NamesUnique ∧
    (carefulOps.foldl Vfs.next freshMount).ListsNames := by
  have run : Run CarefulStep freshMount carefulOps (carefulOps.foldl Vfs.next freshMount) := by
    apply Run.of_performs
    refine ⟨⟨rfl, .inr ⟨trivial, 1, rfl, rfl, ?_, rfl, ⟨2, _, rfl⟩, rfl⟩⟩,
      ⟨rfl, .inr (.inr ⟨by decide, trivial, 2, rfl, rfl, ?_, rfl, ⟨3, _, rfl⟩, rfl⟩)⟩,
      ⟨rfl, .inr (.inl ⟨trivial, .inl rfl⟩)⟩, trivial⟩
    · exact ⟨by decide, by decide, by decide, by decide, by decide⟩
    · exact ⟨by decide, by decide, by decide, by decide, by decide⟩
  obtain ⟨unique, -, lists⟩ := ramfs_names_unique_and_listed (by decide) (by decide) run
  exact ⟨run, rfl, unique, lists⟩

def twiceMade : List VfsOp := [.mkdir [47, 97] 0o755 true true, .mkdir [47, 97] 0o755 true true]

def missedName : List VfsOp := [.open [47] oDirectory 0 allGranted, .lookup [47, 97]]

/-- The second `mkdir` succeeds and makes a second child `a`; the lookup of a missing
name makes a listing report it. -/
theorem mkdir_twice_and_missed_name_listed :
    Run VfsStep freshMount twiceMade (twiceMade.foldl Vfs.next freshMount) ∧
    ((freshMount.vfsMkdir [47, 97] 0o755 true true).2.vfsMkdir [47, 97] 0o755 true true).1 = 0 ∧
    ¬(twiceMade.foldl Vfs.next freshMount).NamesUnique ∧
    Run VfsStep freshMount missedName (missedName.foldl Vfs.next freshMount) ∧
    (listFrom 0 4 (missedName.foldl Vfs.next freshMount)).map (List.map (·.name)) = some [dot, dotdot, [97]] ∧
    (missedName.foldl Vfs.next freshMount).vfsStat [47, 97] = (none, missedName.foldl Vfs.next freshMount) := by
  refine ⟨Run.of_performs ⟨rfl, rfl, trivial⟩, rfl, fun unique => ?_, Run.of_performs ⟨rfl, rfl, trivial⟩,
    rfl, rfl⟩
  have pair := unique 1 _ rfl
  exact (List.pairwise_cons.mp pair).1 2 (by decide) _ _ rfl rfl (by decide) (by decide) rfl

end Rucix.Fs.Ramfs
