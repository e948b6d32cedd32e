import Rucix.Fs.Ramfs.Model

namespace Rucix.Fs.Dcache

open Function

open Rucix.Fs.Ramfs (Name slash dot dotdot components dHash)

/-! The dentries that `path_walk` of `kernel/fs/vfs.c` allocates, links and frees,
over any file system whose `lookup` behaves as `ramfs_lookup` or `fat32_lookup`.

The hash chains, the lists of children and the parent pointers hold addresses, which
may be those of freed dentries; an access to a dentry that is not allocated gives
`none`.  `list_add` writes to the entry that was first, too.  Copies of names are
never freed, reference counts have no reader, and nothing is ever put into
`vfsmount_list`, so these are left out.
-/

/-- `lookup` says whether `i_op->lookup` is set. -/
structure Inode where
  lookup : Bool
deriving DecidableEq

structure Dentry where
  parent : Option Nat
  name : Name
  inode : Option Inode
  subdirs : List Nat
deriving DecidableEq

structure DentryCache where
  root : Nat
  cwd : Option Nat
  dentries : Nat → Option Dentry
  table : Nat → List Nat

/-- What a `lookup` does with the dentry it is given. -/
inductive LookupAnswer where
  /-- `ramfs_lookup`: hash it and return null. -/
  | hashed
  /-- `fat32_lookup` without a match: return null. -/
  | missing
  /-- `fat32_lookup` with a match: add the inode, hash it and return it. -/
  | found (inode : Option Inode)
deriving DecidableEq

/-- The outcomes of `alloc_dentry` and of `lookup` for one component. -/
structure Miss where
  memory : Option Nat
  answer : LookupAnswer
deriving DecidableEq

/-- `lookup` is called and returns a dentry. -/
def Miss.Replaces (miss : Miss) : Prop :=
  miss.memory.isSome = true ∧ ∃ inode, miss.answer = .found inode

namespace DentryCache

def Allocated (dcache : DentryCache) (addr : Nat) : Prop := dcache.dentries addr ≠ none

instance (dcache : DentryCache) (addr : Nat) : Decidable (dcache.Allocated addr) :=
  inferInstanceAs (Decidable (¬_ = _))

/-- The first entry of a list, which `list_add` writes to. -/
def HeadAllocated (dcache : DentryCache) (list : List Nat) : Prop :=
  ∀ first ∈ list.head?, dcache.Allocated first

instance (dcache : DentryCache) (list : List Nat) : Decidable (dcache.HeadAllocated list) :=
  inferInstanceAs (Decidable (∀ first ∈ list.head?, dcache.Allocated first))

/-- The loop of `d_lookup`. -/
def scan (dcache : DentryCache) (parent : Nat) (name : Name) : List Nat → Option (Option Nat)
  | [] => some none
  | addr :: rest =>
    match dcache.dentries addr with
    | none => none
    | some dentry =>
      if dentry.parent = some parent ∧ dentry.name = name then some (some addr)
      else dcache.scan parent name rest

def dLookup (dcache : DentryCache) (parent : Nat) (name : Name) : Option (Option Nat) :=
  dcache.scan parent name (dcache.table (dHash parent name))

def withChild (dcache : DentryCache) (parent : Nat) (dir : Dentry) (addr : Nat) (name : Name) :
    DentryCache :=
  let fresh : Dentry := { parent := some parent, name, inode := none, subdirs := [] }
  { dcache with
    dentries := update (update dcache.dentries addr (some fresh)) parent
      (some { dir with subdirs := addr :: dir.subdirs }) }

def allocDentry (dcache : DentryCache) (parent : Nat) (name : Name) (memory : Option Nat) :
    Option (Option Nat × DentryCache) :=
  match memory with
  | none => some (none, dcache)
  | some addr =>
    match dcache.dentries parent with
    | none => none
    | some dir =>
      if dcache.HeadAllocated dir.subdirs then
        some (some addr, dcache.withChild parent dir addr name)
      else none

def withHash (dcache : DentryCache) (addr : Nat) (dentry : Dentry) (inode : Option Inode) :
    DentryCache :=
  let index := dHash (dentry.parent.getD 0) dentry.name
  { dcache with
    dentries := update dcache.dentries addr
      (some { dentry with inode := inode.or dentry.inode })
    table := update dcache.table index (addr :: dcache.table index) }

def dAdd (dcache : DentryCache) (addr : Nat) (inode : Option Inode) : Option DentryCache :=
  match dcache.dentries addr with
  | none => none
  | some dentry =>
    if dcache.HeadAllocated (dcache.table (dHash (dentry.parent.getD 0) dentry.name)) then
      some (dcache.withHash addr dentry inode)
    else none

def lookup (dcache : DentryCache) (addr : Nat) : LookupAnswer → Option (Option Nat × DentryCache)
  | .hashed => (dcache.dAdd addr none).map fun dcache => (none, dcache)
  | .missing => some (none, dcache)
  | .found inode => (dcache.dAdd addr inode).map fun dcache => (some addr, dcache)

/-- Nothing that refers to the dentry is changed. -/
def kfree (dcache : DentryCache) (addr : Nat) : DentryCache :=
  { dcache with dentries := update dcache.dentries addr none }

/-- A component that is not in the cache: the dentry to go on with, or `none` for
-1. -/
def resolve (dcache : DentryCache) (parent : Nat) (name : Name) (miss : Miss) :
    Option (Option Nat × DentryCache) :=
  (dcache.allocDentry parent name miss.memory).bind fun
    | (none, dcache) => some (none, dcache)
    | (some fresh, dcache) =>
      (dcache.lookup fresh miss.answer).map fun
        | (some result, dcache) => (some result, dcache.kfree fresh)
        | (none, dcache) => (some fresh, dcache)

/-- The loop of `path_walk`: the dentry for `nd` or `none` for -1, the cache, and
the outcomes that were not used.  Without outcomes there is no memory. -/
def walk : List Name → DentryCache → Nat → List Miss → Option (Option Nat × DentryCache × List Miss)
  | [], dcache, dentry, misses => some (some dentry, dcache, misses)
  | component :: rest, dcache, dentry, misses =>
    if component = [] then walk rest dcache dentry misses
    else if 256 ≤ component.length then some (none, dcache, misses)
    else if component = dot then walk rest dcache dentry misses
    else if component = dotdot then
      if dentry = dcache.root then walk rest dcache dentry misses
      else (dcache.dentries dentry).bind fun entry =>
        walk rest dcache (entry.parent.getD dentry) misses
    else
      (dcache.dLookup dentry component).bind fun
        | some child => walk rest dcache child misses
        | none =>
          (dcache.dentries dentry).bind fun entry =>
            if entry.inode.any (·.lookup) = false then some (none, dcache, misses)
            else
              match misses with
              | [] => some (none, dcache, [])
              | miss :: misses =>
                (dcache.resolve dentry component miss).bind fun
                  | (none, dcache) => some (none, dcache, misses)
                  | (some child, dcache) => walk rest dcache child misses

def startOf (dcache : DentryCache) (path : List UInt8) : Nat :=
  if path.head? = some slash then dcache.root else dcache.cwd.getD dcache.root

def pathWalk (dcache : DentryCache) (path : List UInt8) (misses : List Miss) :
    Option (Option Nat × DentryCache × List Miss) :=
  walk (components path) dcache (dcache.startOf path) misses

end DentryCache

end Rucix.Fs.Dcache
