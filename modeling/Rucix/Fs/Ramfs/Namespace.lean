import Mathlib.Data.List.Nodup
import Rucix.Fs.Ramfs.Model

namespace Rucix.Fs.Ramfs

open Function List

/-! The invariant of the names: every dentry has an inode, is in its hash chain and
in the list of its parent, and is the only one of its parent with its name.
-/

variable {vfs : Vfs} {parent addr child : Nat} {name : Name} {inode : Inode} {dir entry : Dentry}
  {pool : List (Option Nat)}

/-- A name that a path can lead to. -/
structure Proper (name : Name) : Prop where
  nonempty : name ≠ []
  whole : slash ∉ name
  short : name.length < 256
  notDot : name ≠ dot
  notDotdot : name ≠ dotdot

structure Vfs.Consistent (vfs : Vfs) : Prop where
  root : ∃ dir, vfs.dentries vfs.root = some dir ∧ dir.parent = none ∧ dir.inode.any (·.isDir) = true
  cwd : vfs.cwd = vfs.root
  child : ∀ addr entry parent, vfs.dentries addr = some entry → entry.parent = some parent →
    Proper entry.name ∧ addr ∈ vfs.table (dHash parent entry.name) ∧
      ∃ dir, vfs.dentries parent = some dir ∧ addr ∈ dir.subdirs
  inodes : ∀ addr entry, vfs.dentries addr = some entry → entry.inode ≠ none
  subdirs : ∀ parent dir, vfs.dentries parent = some dir → dir.subdirs.Nodup ∧
    ∀ addr ∈ dir.subdirs, ∃ entry, vfs.dentries addr = some entry ∧ entry.parent = some parent
  unique : ∀ first second left right parent, vfs.dentries first = some left →
    vfs.dentries second = some right → left.parent = some parent → right.parent = some parent →
    left.name = right.name → first = second
  fresh : ∀ addr, some addr ∈ vfs.pool → vfs.dentries addr = none
  distinct : (vfs.pool.filterMap id).Nodup

theorem dLookup_some (found : vfs.dLookup parent name = some addr) :
    ∃ entry, vfs.dentries addr = some entry ∧ entry.parent = some parent ∧ entry.name = name := by
  have hit := find?_some found
  cases stored : vfs.dentries addr with
  | none => simp [stored] at hit
  | some entry =>
    simp only [stored, Option.any_some, decide_eq_true_eq] at hit
    exact ⟨entry, rfl, hit.1, hit.2⟩

theorem Vfs.Consistent.dLookup_eq_some (consistent : vfs.Consistent) :
    vfs.dLookup parent name = some addr ↔
      ∃ entry, vfs.dentries addr = some entry ∧ entry.parent = some parent ∧ entry.name = name := by
  refine ⟨dLookup_some, fun ⟨entry, stored, owner, named⟩ => ?_⟩
  obtain ⟨-, listed, -⟩ := consistent.child addr entry parent stored owner
  cases found : vfs.dLookup parent name with
  | some other =>
    obtain ⟨right, known, below, same⟩ := dLookup_some found
    rw [consistent.unique other addr right entry parent known stored below owner (same.trans named.symm)]
  | none =>
    have missed := find?_eq_none.mp found addr (named ▸ listed)
    simp [stored, owner, named] at missed

def Vfs.withChild (vfs : Vfs) (parent addr : Nat) (dir : Dentry) (name : Name) (inode : Inode)
    (pool : List (Option Nat)) : Vfs :=
  { vfs with
    dentries := update
      (update vfs.dentries parent (some { dir with subdirs := addr :: dir.subdirs })) addr
      (some { parent := some parent, name, inode := some inode, hashed := true, subdirs := [] })
    table := update vfs.table (dHash parent name) (addr :: vfs.table (dHash parent name))
    pool }

def Vfs.withDentry (vfs : Vfs) (parent addr : Nat) (dir : Dentry) (name : Name)
    (pool : List (Option Nat)) : Vfs :=
  { vfs with
    dentries := update
      (update vfs.dentries parent (some { dir with subdirs := addr :: dir.subdirs })) addr
      (some { parent := some parent, name, inode := none, hashed := false, subdirs := [] })
    pool }

theorem allocDentry_eq (available : vfs.pool = some addr :: pool) (different : parent ≠ addr)
    (stored : vfs.dentries parent = some dir) :
    vfs.allocDentry parent name = (some addr, vfs.withDentry parent addr dir name pool) := by
  simp only [Vfs.allocDentry, available, Vfs.withDentry, Vfs.setDentry, Vfs.modify,
    update_of_ne different, stored, Option.map_some]
  rw [update_comm different]

theorem ramfsMknod_withDentry :
    (vfs.withDentry parent addr dir name pool).ramfsMknod addr mode dev true =
      (0, vfs.withChild parent addr dir name { mode, rdev := dev } pool) := by
  simp [Vfs.ramfsMknod, Vfs.withDentry, Vfs.withChild, Vfs.dAdd, Vfs.dInstantiate, Vfs.dRehash, Vfs.modify,
    Vfs.setDentry]

theorem ramfsMknod_ramfsLookup :
    ((vfs.withDentry parent addr dir name pool).ramfsLookup addr).ramfsMknod addr mode dev true =
      (0, vfs.withChild parent addr dir name { mode, rdev := dev } pool) := by
  simp [Vfs.ramfsMknod, Vfs.ramfsLookup, Vfs.withDentry, Vfs.withChild, Vfs.dAdd, Vfs.dInstantiate,
    Vfs.dRehash, Vfs.modify, Vfs.setDentry]

structure Vfs.Kept (holder addr other : Nat) (old entry : Dentry) : Prop where
  parent : entry.parent = old.parent
  name : entry.name = old.name
  inode : entry.inode = old.inode
  subdirs : entry.subdirs = if other = holder then addr :: old.subdirs else old.subdirs

theorem withChild_new : (vfs.withChild parent addr dir name inode pool).dentries addr =
      some { parent := some parent, name, inode := some inode, hashed := true, subdirs := [] } :=
  update_self ..

theorem mem_table_withChild (listed : other ∈ vfs.table bucket) :
    other ∈ (vfs.withChild parent addr dir name inode pool).table bucket := by
  by_cases here : bucket = dHash parent name
  · subst here
    simp [Vfs.withChild, listed]
  · simpa [Vfs.withChild, here] using listed

theorem withChild_cases (stored : vfs.dentries parent = some dir)
    (found : (vfs.withChild parent addr dir name inode pool).dentries other = some entry) :
    other = addr ∧ entry = { parent := some parent, name, inode := some inode, hashed := true, subdirs := [] } ∨
      ∃ old, vfs.dentries other = some old ∧ Vfs.Kept parent addr other old entry := by
  by_cases new : other = addr
  · subst new
    exact .inl ⟨rfl, Option.some.inj (found.symm.trans withChild_new)⟩
  · by_cases here : other = parent
    · subst here
      have same : { dir with subdirs := addr :: dir.subdirs } = entry := by
        simpa [Vfs.withChild, new] using found
      subst same
      exact .inr ⟨dir, stored, rfl, rfl, rfl, by simp⟩
    · exact .inr ⟨entry, by simpa [Vfs.withChild, new, here] using found, rfl, rfl, rfl, by simp [here]⟩

namespace Vfs.Consistent

variable {other owner : Nat} {old : Dentry}

theorem ne_allocated (consistent : vfs.Consistent) (available : vfs.pool = some addr :: pool)
    (known : vfs.dentries other = some old) : other ≠ addr := by
  intro same
  have unused := consistent.fresh addr (by simp [available])
  cases (same ▸ known).symm.trans unused

variable (consistent : vfs.Consistent) (available : vfs.pool = some addr :: pool)
  (stored : vfs.dentries parent = some dir)
include consistent available stored

theorem withChild_keeps (known : vfs.dentries other = some old) :
    ∃ entry, (vfs.withChild parent addr dir name inode pool).dentries other = some entry ∧
      Vfs.Kept parent addr other old entry := by
  have different : other ≠ addr := consistent.ne_allocated available known
  by_cases here : other = parent
  · subst here
    cases known.symm.trans stored
    exact ⟨{ dir with subdirs := addr :: dir.subdirs }, by simp [Vfs.withChild, different],
      rfl, rfl, rfl, by simp⟩
  · exact ⟨old, by simp [Vfs.withChild, different, here, known], rfl, rfl, rfl, by simp [here]⟩

theorem withChild_child (proper : Proper name)
    (found : (vfs.withChild parent addr dir name inode pool).dentries other = some entry)
    (below : entry.parent = some owner) : Proper entry.name ∧
      other ∈ (vfs.withChild parent addr dir name inode pool).table (dHash owner entry.name) ∧
      ∃ holder, (vfs.withChild parent addr dir name inode pool).dentries owner = some holder ∧
        other ∈ holder.subdirs := by
  rcases withChild_cases stored found with ⟨rfl, rfl⟩ | ⟨old, before, kept⟩
  · cases below
    obtain ⟨holder, now, kept⟩ := consistent.withChild_keeps available stored stored
    exact ⟨proper, by simp [Vfs.withChild], holder, now, by simp [kept.subdirs]⟩
  · obtain ⟨named, listed, holder, held, member⟩ :=
      consistent.child other old owner before (kept.parent.symm.trans below)
    obtain ⟨entryOwner, now, keptOwner⟩ := consistent.withChild_keeps available stored held
    refine ⟨kept.name ▸ named, kept.name ▸ mem_table_withChild listed, entryOwner, now, ?_⟩
    rw [keptOwner.subdirs]
    split
    · exact mem_cons_of_mem _ member
    · exact member

theorem withChild_subdirs (found : (vfs.withChild parent addr dir name inode pool).dentries owner = some entry) :
    entry.subdirs.Nodup ∧ ∀ other ∈ entry.subdirs, ∃ child,
      (vfs.withChild parent addr dir name inode pool).dentries other = some child ∧
        child.parent = some owner := by
  rcases withChild_cases stored found with ⟨rfl, rfl⟩ | ⟨old, before, kept⟩
  · exact ⟨nodup_nil, fun _ member => nomatch member⟩
  · obtain ⟨nodup, members⟩ := consistent.subdirs owner old before
    have below : ∀ other ∈ old.subdirs, ∃ child,
        (vfs.withChild parent addr dir name inode pool).dentries other = some child ∧
          child.parent = some owner := by
      intro other member
      obtain ⟨child, held, above⟩ := members other member
      obtain ⟨childNow, now, keptChild⟩ := consistent.withChild_keeps available stored held
      exact ⟨childNow, now, keptChild.parent.trans above⟩
    rw [kept.subdirs]
    split
    · rename_i same
      subst same
      refine ⟨nodup_cons.mpr ⟨fun member => ?_, nodup⟩, fun other member => ?_⟩
      · obtain ⟨child, held, -⟩ := members addr member
        exact consistent.ne_allocated available held rfl
      · rcases mem_cons.mp member with new | old
        · exact new ▸ ⟨_, withChild_new, rfl⟩
        · exact below other old
    · exact ⟨nodup, below⟩

omit available in
theorem withChild_unique (absent : vfs.dLookup parent name = none)
    (foundLeft : (vfs.withChild parent addr dir name inode pool).dentries first = some left)
    (foundRight : (vfs.withChild parent addr dir name inode pool).dentries second = some right)
    (below : left.parent = some owner) (beside : right.parent = some owner) (same : left.name = right.name) :
    first = second := by
  have alone : ∀ {other old}, vfs.dentries other = some old → old.parent = some parent → old.name ≠ name := by
    intro other old stored owner named
    cases absent.symm.trans (consistent.dLookup_eq_some.mpr ⟨old, stored, owner, named⟩)
  rcases withChild_cases stored foundLeft with ⟨rfl, rfl⟩ | ⟨oldLeft, beforeLeft, keptLeft⟩
  · rcases withChild_cases stored foundRight with ⟨rfl, rfl⟩ | ⟨old, before, kept⟩
    · rfl
    · cases below
      exact absurd (kept.name.symm.trans same.symm) (alone before (kept.parent.symm.trans beside))
  · rcases withChild_cases stored foundRight with ⟨rfl, rfl⟩ | ⟨oldRight, beforeRight, keptRight⟩
    · cases beside
      exact absurd (keptLeft.name.symm.trans same) (alone beforeLeft (keptLeft.parent.symm.trans below))
    · exact consistent.unique first second oldLeft oldRight owner beforeLeft beforeRight
        (keptLeft.parent.symm.trans below) (keptRight.parent.symm.trans beside)
        (keptLeft.name.symm.trans (same.trans keptRight.name))

theorem withChild_fresh (listed : some other ∈ pool) :
    (vfs.withChild parent addr dir name inode pool).dentries other = none := by
  have distinct := consistent.distinct
  rw [available] at distinct
  have different : other ≠ addr := by
    intro same
    subst same
    have member : other ∈ pool.filterMap id := mem_filterMap.mpr ⟨some other, listed, rfl⟩
    exact (nodup_cons.mp distinct).1 member
  have empty := consistent.fresh other (available ▸ mem_cons_of_mem _ listed)
  have apart : other ≠ parent := by
    intro same
    cases (same ▸ empty).symm.trans stored
  simp [Vfs.withChild, different, apart, empty]

theorem withChild (proper : Proper name) (absent : vfs.dLookup parent name = none) :
    (vfs.withChild parent addr dir name inode pool).Consistent where
  root := by
    obtain ⟨top, held, orphan, directory⟩ := consistent.root
    obtain ⟨entry, now, kept⟩ := consistent.withChild_keeps available stored held
    exact ⟨entry, now, kept.parent.trans orphan, by rw [kept.inode]; exact directory⟩
  cwd := consistent.cwd
  child _ _ _ found below := consistent.withChild_child available stored proper found below
  inodes other entry found := by
    rcases withChild_cases stored found with ⟨rfl, rfl⟩ | ⟨old, before, kept⟩
    · exact Option.some_ne_none _
    · rw [kept.inode]
      exact consistent.inodes other old before
  subdirs _ _ found := consistent.withChild_subdirs available stored found
  unique _ _ _ _ _ foundLeft foundRight below beside same :=
    consistent.withChild_unique stored absent foundLeft foundRight below beside same
  fresh _ listed := consistent.withChild_fresh available stored listed
  distinct := by
    have distinct := consistent.distinct
    rw [available] at distinct
    exact (nodup_cons.mp distinct).2

end Vfs.Consistent

end Rucix.Fs.Ramfs
