import Mathlib.Tactic.Ring

namespace Rucix.Fs.Ramfs

open Function

/-! Names in the VFS over a ramfs root: the dentry cache, path lookup and the
creating calls of `kernel/fs/vfs.c`, and `kernel/fs/ramfs.c`.

Dentries are never freed here.  `pool` holds the results of the coming allocations of
dentries.  Lists of the source to which entries are added at the head have the newest
entry first.  Nothing is ever put into `vfsmount_list`, so mounts are left out.
-/

abbrev Name := List UInt8

abbrev slash : UInt8 := 47

abbrev dot : Name := [46]

abbrev dotdot : Name := [46, 46]

abbrev maxFiles : Nat := 128
abbrev maxPathLen : Nat := 4096
abbrev maxFilenameLen : Nat := 255

abbrev oWronly : Nat := 0o1
abbrev oRdwr : Nat := 0o2
abbrev oCreat : Nat := 0o100
abbrev oExcl : Nat := 0o200
abbrev oDirectory : Nat := 0o200000

abbrev sIfmt : Nat := 0o170000
abbrev sIfreg : Nat := 0o100000
abbrev sIfdir : Nat := 0o040000

/-- Only directories have inode operations, and only they can be listed. -/
structure Inode where
  mode : Nat
  rdev : Nat
deriving DecidableEq

def Inode.isDir (inode : Inode) : Bool := inode.mode &&& sIfmt = sIfdir

def Inode.isReg (inode : Inode) : Bool := inode.mode &&& sIfmt = sIfreg

structure Dentry where
  parent : Option Nat
  name : Name
  inode : Option Inode
  hashed : Bool
  subdirs : List Nat
deriving DecidableEq

structure OpenFile where
  dentry : Nat
  fPos : Nat
deriving DecidableEq

structure Vfs where
  root : Nat
  cwd : Nat
  dentries : Nat → Option Dentry
  table : Nat → List Nat
  fdTable : Nat → Option OpenFile
  pool : List (Option Nat)

/-- 32-bit arithmetic on signed characters. -/
def dHash (parent : Nat) (name : Name) : Nat :=
  let step := fun (hash : Nat) (char : UInt8) =>
    (hash * 31 + (if char.toNat < 128 then char.toNat else 2 ^ 32 - 256 + char.toNat)) % 2 ^ 32
  (name.foldl step 0 ^^^ (parent % 2 ^ 32)) % 1024

/-- The pieces of a path between slashes, empty ones included. -/
def components : List UInt8 → List Name
  | [] => [[]]
  | char :: rest =>
    if char = slash then [] :: components rest
    else
      match components rest with
      | [] => [[char]]
      | first :: more => (char :: first) :: more

namespace Vfs

def setDentry (vfs : Vfs) (addr : Nat) (dentry : Dentry) : Vfs :=
  { vfs with dentries := update vfs.dentries addr (some dentry) }

def modify (vfs : Vfs) (addr : Nat) (change : Dentry → Dentry) : Vfs :=
  { vfs with dentries := update vfs.dentries addr ((vfs.dentries addr).map change) }

def inodeOf (vfs : Vfs) (addr : Nat) : Option Inode := (vfs.dentries addr).bind (·.inode)

def isDirectory (vfs : Vfs) (addr : Nat) : Bool := (vfs.inodeOf addr).any (·.isDir)

def allocDentry (vfs : Vfs) (parent : Nat) (name : Name) : Option Nat × Vfs :=
  match vfs.pool with
  | [] => (none, vfs)
  | none :: pool => (none, { vfs with pool })
  | some addr :: pool =>
    let fresh : Dentry := { parent := some parent, name, inode := none, hashed := false, subdirs := [] }
    (some addr, ({ vfs with pool }.setDentry addr fresh).modify parent fun dentry =>
      { dentry with subdirs := addr :: dentry.subdirs })

def dInstantiate (vfs : Vfs) (addr : Nat) (inode : Inode) : Vfs :=
  vfs.modify addr fun dentry => { dentry with inode := some inode }

/-- The entry goes to the head of its hash chain. -/
def dRehash (vfs : Vfs) (addr : Nat) : Vfs :=
  match vfs.dentries addr with
  | none => vfs
  | some dentry =>
    let index := dHash (dentry.parent.getD 0) dentry.name
    { vfs.setDentry addr { dentry with hashed := true } with
      table := update vfs.table index (addr :: vfs.table index) }

def dAdd (vfs : Vfs) (addr : Nat) : (inode : Option Inode) → Vfs
  | none => vfs.dRehash addr
  | some inode => (vfs.dInstantiate addr inode).dRehash addr

def dLookup (vfs : Vfs) (parent : Nat) (name : Name) : Option Nat :=
  (vfs.table (dHash parent name)).find? fun addr =>
    (vfs.dentries addr).any fun dentry => dentry.parent = some parent ∧ dentry.name = name

/-- `ramfs_mknod`; `inode` says whether the inode can be allocated. -/
def ramfsMknod (vfs : Vfs) (addr mode dev : Nat) (inode : Bool) : Int × Vfs :=
  if inode = false then (-1, vfs)
  else if (vfs.dentries addr).any (·.hashed) then (0, vfs.dInstantiate addr { mode, rdev := dev })
  else (0, vfs.dAdd addr (some { mode, rdev := dev }))

def ramfsCreate (vfs : Vfs) (addr mode : Nat) (inode : Bool) : Int × Vfs :=
  vfs.ramfsMknod addr (mode ||| sIfreg) 0 inode

def ramfsMkdir (vfs : Vfs) (addr mode : Nat) (inode : Bool) : Int × Vfs :=
  vfs.ramfsMknod addr (mode ||| sIfdir) 0 inode

/-- A ramfs has nothing but its dentries: what is not there becomes an entry
without an inode. -/
def ramfsLookup (vfs : Vfs) (addr : Nat) : Vfs := vfs.dAdd addr none

/-- Where `..` leads. -/
def above (vfs : Vfs) (addr : Nat) : Nat :=
  if addr = vfs.root then addr else ((vfs.dentries addr).bind (·.parent)).getD addr

end Vfs

/-- The loop of `path_walk`. -/
def walk : List Name → Vfs → Nat → Option Nat × Vfs
  | [], vfs, dentry => (some dentry, vfs)
  | component :: rest, vfs, dentry =>
    if component = [] then walk rest vfs dentry
    else if 256 ≤ component.length then (none, vfs)
    else if component = dot then walk rest vfs dentry
    else if component = dotdot then walk rest vfs (vfs.above dentry)
    else
      match vfs.dLookup dentry component with
      | some child => walk rest vfs child
      | none =>
        if vfs.isDirectory dentry = false then (none, vfs)
        else
          match vfs.allocDentry dentry component with
          | (none, vfs) => (none, vfs)
          | (some child, vfs) => walk rest (vfs.ramfsLookup child) child

namespace Vfs

def startOf (vfs : Vfs) (path : List UInt8) : Nat :=
  if path.head? = some slash then vfs.root else vfs.cwd

def pathWalk (vfs : Vfs) (path : List UInt8) : Option Nat × Vfs :=
  walk (components path) vfs (vfs.startOf path)

end Vfs

def parentOf (path : List UInt8) : List Name := (components path).dropLast

def nameOf (path : List UInt8) : Name := (components path).getLast?.getD []

namespace Vfs

/-- The parent directory of a path.  `copied` says whether the copy of the path,
which is made when the last slash is not the first character, can be allocated. -/
def vfsResolveParent (vfs : Vfs) (path : List UInt8) (copied : Bool) : Option Nat × Vfs :=
  if copied = false ∧ parentOf path ≠ [] ∧ parentOf path ≠ [[]] then (none, vfs)
  else
    match walk (parentOf path) vfs (vfs.startOf path) with
    | (none, vfs) => (none, vfs)
    | (some parent, vfs) => (if (vfs.inodeOf parent).isSome then some parent else none, vfs)

/-- The allocations of an `open`, and what `f_op->open` returns. -/
structure OpenAnswers where
  copied : Bool
  inode : Bool
  file : Bool
  opened : Int

/-- The part of `vfs_open` that finds or creates the dentry; an error code otherwise. -/
def openDentry (vfs : Vfs) (path : List UInt8) (flags mode : Nat) (answers : OpenAnswers) :
    Except Int Nat × Vfs :=
  match vfs.pathWalk path with
  | (none, vfs) =>
    if flags &&& oCreat = 0 then (.error (-1), vfs)
    else
      match vfs.vfsResolveParent path answers.copied with
      | (none, vfs) => (.error (-1), vfs)
      | (some parent, vfs) =>
        match vfs.allocDentry parent (nameOf path) with
        | (none, vfs) => (.error (-1), vfs)
        | (some addr, vfs) =>
          if vfs.isDirectory parent = false then (.error (-1), vfs)
          else
            let (err, vfs) := vfs.ramfsCreate addr mode answers.inode
            (if err = 0 then .ok addr else .error err, vfs)
  | (some addr, vfs) =>
    match vfs.inodeOf addr with
    | none =>
      if flags &&& oCreat = 0 then (.error (-1), vfs)
      else
        match (vfs.dentries addr).bind (·.parent) with
        | none => (.error (-1), vfs)
        | some parent =>
          if vfs.isDirectory parent = false then (.error (-1), vfs)
          else
            let (err, vfs) := vfs.ramfsCreate addr mode answers.inode
            (if err = 0 then .ok addr else .error err, vfs)
    | some inode =>
      if flags &&& oCreat ≠ 0 ∧ flags &&& oExcl ≠ 0 then (.error (-1), vfs)
      else if inode.isDir ∧ (flags &&& oWronly ≠ 0 ∨ flags &&& oRdwr ≠ 0) then (.error (-1), vfs)
      else (.ok addr, vfs)

def freeFds (vfs : Vfs) : List Nat := (List.range maxFiles).filter fun fd => (vfs.fdTable fd).isNone

/-- `O_RDONLY` is 0, so a directory is opened only with `O_DIRECTORY`. -/
def vfsOpen (vfs : Vfs) (path : List UInt8) (flags mode : Nat) (answers : OpenAnswers) : Int × Vfs :=
  if vfs.freeFds = [] then (-1, vfs)
  else
    match vfs.openDentry path flags mode answers with
    | (.error err, vfs) => (err, vfs)
    | (.ok addr, vfs) =>
      if vfs.isDirectory addr ∧ flags &&& oDirectory = 0 then (-1, vfs)
      else if answers.file = false then (-1, vfs)
      else if answers.opened ≠ 0 then (answers.opened, vfs)
      else
        match vfs.freeFds with
        | [] => (-1, vfs)
        | fd :: _ => (fd, { vfs with
            fdTable := update vfs.fdTable fd (some { dentry := addr, fPos := 0 }) })

def vfsMkdir (vfs : Vfs) (path : List UInt8) (mode : Nat) (copied inode : Bool) : Int × Vfs :=
  match vfs.vfsResolveParent path copied with
  | (none, vfs) => (-1, vfs)
  | (some parent, vfs) =>
    match vfs.allocDentry parent (nameOf path) with
    | (none, vfs) => (-1, vfs)
    | (some addr, vfs) =>
      if vfs.isDirectory parent = false then (-1, vfs) else vfs.ramfsMkdir addr mode inode

/-- The part of `vfs_mknod` that finds the parent.  Both parts of the path are copied into
arrays of fixed size; `none` is an overflow of one of them. -/
def mknodParent (vfs : Vfs) (path : List UInt8) : Option (Option Nat × Vfs) :=
  if slash ∉ path then some (none, vfs)
  else if maxFilenameLen ≤ (nameOf path).length ∨ maxPathLen ≤ path.length - (nameOf path).length - 1 then none
  else some (walk (parentOf path) vfs (vfs.startOf path))

def vfsMknod (vfs : Vfs) (path : List UInt8) (mode dev : Nat) (inode : Bool) : Option (Int × Vfs) :=
  match vfs.mknodParent path with
  | none => none
  | some (none, vfs) => some (-1, vfs)
  | some (some parent, vfs) =>
    if vfs.isDirectory parent = false then some (-1, vfs)
    else
      match vfs.allocDentry parent (nameOf path) with
      | (none, vfs) => some (-1, vfs)
      | (some addr, vfs) => some (vfs.ramfsMknod addr mode dev inode)

def vfsLookup (vfs : Vfs) (path : List UInt8) : Option Nat × Vfs := vfs.pathWalk path

/-- The inode whose fields are reported, or `none` for -1. -/
def vfsStat (vfs : Vfs) (path : List UInt8) : Option Inode × Vfs :=
  match vfs.vfsLookup path with
  | (none, vfs) => (none, vfs)
  | (some addr, vfs) => (vfs.inodeOf addr, vfs)

inductive DirentType where
  | dir
  | reg
  | unknown
deriving DecidableEq

structure Dirent where
  name : Name
  off : Nat
  type : DirentType
deriving DecidableEq

def direntType : Option Inode → DirentType
  | none => .unknown
  | some inode => if inode.isDir then .dir else if inode.isReg then .reg else .unknown

/-- The entry at a position of a directory, or `none` when 0 is returned. -/
def ramfsReaddir (vfs : Vfs) (dir : Dentry) (fPos : Nat) : Option Dirent :=
  if fPos = 0 then some { name := dot, off := 0, type := .dir }
  else if fPos = 1 then some { name := dotdot, off := 1, type := .dir }
  else
    (dir.subdirs[fPos - 2]?).bind fun addr => (vfs.dentries addr).map fun child =>
      { name := child.name.take 255, off := fPos, type := direntType child.inode }

/-- The result, the entry and the file position afterwards. -/
def vfsReaddir (vfs : Vfs) (fd : Nat) : Int × Option Dirent × Vfs :=
  match vfs.fdTable fd with
  | none => (-1, none, vfs)
  | some file =>
    match vfs.dentries file.dentry with
    | none => (-1, none, vfs)
    | some dir =>
      if dir.inode.any (·.isDir) = false then (-1, none, vfs)
      else
        match vfs.ramfsReaddir dir file.fPos with
        | none => (0, none, vfs)
        | some entry => (1, some entry, { vfs with
            fdTable := update vfs.fdTable fd (some { file with fPos := file.fPos + 1 }) })

end Vfs

/-- A mounted ramfs: a root directory and nothing else. -/
def ramfsMount (root : Nat) (pool : List (Option Nat)) : Vfs where
  root := root
  cwd := root
  dentries := update (fun _ => none) root (some
    { parent := none, name := [slash], inode := some { mode := sIfdir ||| 0o755, rdev := 0 }
      hashed := true, subdirs := [] })
  table := update (fun _ => []) (dHash 0 [slash]) [root]
  fdTable := fun _ => none
  pool := pool

end Rucix.Fs.Ramfs
