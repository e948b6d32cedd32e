import Rucix.Data.Circular
import Rucix.Data.Run

namespace Rucix.Fs

open Rucix.Data Function List

/-! The inodes of a superblock: `new_inode` of `kernel/fs/vfs.c` after `ramfs_mount` of
`kernel/fs/ramfs.c` or `fat32_mount` of `kernel/fs/fat32.c`.

A node of the list is the head `s_inodes`, written `none`, or the `i_sb_list` of the
inode at an address.  The memory for an inode is an argument of `new_inode`.
-/

structure SuperBlock where
  heads : ListHeads (Option Nat)
  inodes : List Nat
  /-- Whether a list operation has written through a null link. -/
  nullWrite : Bool

namespace SuperBlock

/-- A superblock after `memset`, and after `INIT_LIST_HEAD` of its list if `initialised`. -/
def zeroed (initialised : Bool) : SuperBlock where
  heads :=
    let zero : ListHeads (Option Nat) := ⟨fun _ => none, fun _ => none⟩
    if initialised then zero.init none else zero
  inodes := []
  nullWrite := false

/-- `list_add`, which writes to the first node even if there is none. -/
def listAdd (sb : SuperBlock) (addr : Nat) : SuperBlock :=
  match sb.heads.next none with
  | some first => { sb with heads := sb.heads.add (some addr) none first }
  | none =>
    { sb with
      heads.next := update (update sb.heads.next (some addr) none) none (some (some addr))
      heads.prev := update sb.heads.prev (some addr) (some none)
      nullWrite := true }

def newInode (sb : SuperBlock) (memory : Option Nat) : SuperBlock :=
  match memory with
  | none => sb
  | some addr => { sb.listAdd addr with inodes := addr :: sb.inodes }

/-- Neither mount function initialises the list before it makes the root inode.  A
superblock of ramfs is returned even if there is no memory for that. -/
def ramfsMount (root : Option Nat) : SuperBlock := (zeroed false).newInode root

def fat32Mount (root : Nat) : SuperBlock := (zeroed false).newInode (some root)

/-- The list is a ring of all inodes, and nothing was written through a null link. -/
def Listed (sb : SuperBlock) : Prop :=
  sb.nullWrite = false ∧ Circular sb.heads none (sb.inodes.map some)

end SuperBlock

/-- Memory for an inode is not that of another inode. -/
inductive InodeStep : SuperBlock → Option Nat → SuperBlock → Prop where
  | newInode {sb : SuperBlock} {memory : Option Nat} (fresh : ∀ addr ∈ memory, addr ∉ sb.inodes) :
      InodeStep sb memory (sb.newInode memory)

theorem SuperBlock.Listed.newInode (listed : Listed sb) (fresh : ∀ addr ∈ memory, addr ∉ sb.inodes) :
    Listed (sb.newInode memory) := by
  cases memory with
  | none => exact listed
  | some addr =>
    have outside : some addr ∉ none :: sb.inodes.map some := by simpa using fresh addr rfl
    obtain ⟨noWrite, ring⟩ := listed
    simp only [SuperBlock.newInode, listAdd, ring.next_head]
    exact ⟨noWrite, ring.add_head outside⟩

/-- The links of a head that was left zero. -/
structure SuperBlock.Uninitialised (sb : SuperBlock) : Prop where
  next : sb.heads.next none ≠ some none
  prev : sb.heads.prev none = none

theorem SuperBlock.Uninitialised.newInode (zero : Uninitialised sb) :
    Uninitialised (sb.newInode memory) := by
  cases memory with
  | none => exact zero
  | some addr =>
    simp only [SuperBlock.newInode, listAdd]
    cases first : sb.heads.next none with
    | none => exact ⟨by simp, by simpa using zero.prev⟩
    | some node =>
      have apart : none ≠ node := fun same => zero.next (first.trans (same ▸ rfl))
      exact ⟨by simp [ListHeads.add], by simpa [ListHeads.add, update_of_ne apart] using zero.prev⟩

/-- Whatever inodes are made, their list is well formed exactly if its head was
initialised before the first one. -/
theorem superblock_inodes_listed_iff (run : Run InodeStep (.zeroed initialised) trace sb) :
    sb.Listed ↔ initialised = true := by
  cases initialised with
  | true =>
    refine iff_of_true (run.invariant ⟨rfl, Circular.nil_iff.mpr ⟨rfl, rfl⟩⟩ ?_) rfl
    rintro before memory later listed ⟨fresh⟩
    exact listed.newInode fresh
  | false =>
    have zero : sb.Uninitialised := by
      refine run.invariant ⟨nofun, rfl⟩ ?_
      rintro before memory later zero ⟨-⟩
      exact zero.newInode
    refine iff_of_false (fun listed => ?_) Bool.false_ne_true
    have prev : sb.heads.prev none = _ := listed.2.flip.next_head
    rw [zero.prev] at prev
    contradiction

theorem superblock_inodes_listed_iff_two :
    (((SuperBlock.zeroed true).newInode (some 1)).newInode (some 2)).Listed ↔ true = true := by
  have first : InodeStep (.zeroed true) (some 1) _ := .newInode (by simp [SuperBlock.zeroed])
  exact superblock_inodes_listed_iff
    (.snoc (.snoc .nil first) (.newInode (by simp [SuperBlock.newInode, SuperBlock.zeroed])))

/-- The root inode of either file system is linked through a null pointer. -/
theorem mounted_inodes_not_listed :
    (SuperBlock.ramfsMount (some 1)).nullWrite = true ∧ ¬(SuperBlock.ramfsMount (some 1)).Listed ∧
      (SuperBlock.fat32Mount 1).nullWrite = true ∧ ¬(SuperBlock.fat32Mount 1).Listed :=
  ⟨rfl, nofun, rfl, nofun⟩

end Rucix.Fs
