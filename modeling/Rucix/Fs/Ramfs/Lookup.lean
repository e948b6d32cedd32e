import Rucix.Fs.Ramfs.Namespace

namespace Rucix.Fs.Ramfs

/-! Path lookup against the names that are there, and the listing of directories. -/

variable {vfs : Vfs} {parent addr : Nat} {name : Name} {dir entry : Dentry} {pool : List (Option Nat)}

theorem components_ne_nil : components path ≠ [] := by
  cases path with
  | nil => simp [components]
  | cons char rest =>
    rw [components]
    split
    · simp
    · split <;> simp

theorem components_of_whole (whole : slash ∉ name) : components name = [name] := by
  induction name with
  | nil => rfl
  | cons char rest ih =>
    have different : char ≠ slash := fun same => whole (same ▸ List.mem_cons_self)
    rw [components, if_neg different, ih fun member => whole (List.mem_cons_of_mem _ member)]

theorem components_append :
    components (path ++ slash :: rest) = components path ++ components rest := by
  induction path with
  | nil => simp [components]
  | cons char path ih =>
    rw [List.cons_append, components, components, ih]
    split
    · rfl
    · cases pieces : components path with
      | nil => exact absurd pieces (components_ne_nil)
      | cons first more => rfl

theorem parentOf_nameOf : components path = parentOf path ++ [nameOf path] := by
  rw [nameOf, List.getLast?_eq_getLast_of_ne_nil (components_ne_nil)]
  exact (List.dropLast_append_getLast _).symm

def resolve (vfs : Vfs) : List Name → Nat → Option Nat
  | [], start => some start
  | component :: rest, start =>
    if component = [] then resolve vfs rest start
    else if 256 ≤ component.length then none
    else if component = dot then resolve vfs rest start
    else if component = dotdot then resolve vfs rest (vfs.above start)
    else
      match vfs.dLookup start component with
      | some child => resolve vfs rest child
      | none => none

/-- No directory on the way lacks the next name. -/
def Known (vfs : Vfs) : List Name → Nat → Prop
  | [], _ => True
  | component :: rest, start =>
    if component = [] then Known vfs rest start
    else if 256 ≤ component.length then True
    else if component = dot then Known vfs rest start
    else if component = dotdot then Known vfs rest (vfs.above start)
    else
      match vfs.dLookup start component with
      | some child => Known vfs rest child
      | none => vfs.isDirectory start = false

theorem walk_known (known : Known vfs names start) : walk names vfs start = (resolve vfs names start, vfs) := by
  fun_induction Known vfs names start with
  | case1 => rfl
  | case2 _ _ ih | case4 _ _ _ _ ih | case5 _ _ _ _ _ ih => simp [walk, resolve, ih known]
  | case3 _ _ _ empty long => simp [walk, resolve, empty, long]
  | case6 _ _ _ empty long here up child found ih => simp [walk, resolve, empty, long, here, up, found, ih known]
  | case7 _ _ _ empty long here up found => simp [walk, resolve, empty, here, up, found, known]

/-- The cached child of that name, or a new one without an inode. -/
def Vfs.childNamed (vfs : Vfs) (dentry : Nat) (name : Name) : Option Nat × Vfs :=
  match vfs.dLookup dentry name with
  | some child => (some child, vfs)
  | none =>
    if vfs.isDirectory dentry = false then (none, vfs)
    else
      match vfs.allocDentry dentry name with
      | (none, vfs) => (none, vfs)
      | (some child, vfs) => (some child, vfs.ramfsLookup child)

/-- One component of a path, other than an empty one and `.`. -/
def Vfs.enter (vfs : Vfs) (dentry : Nat) (name : Name) : Option Nat × Vfs :=
  if 256 ≤ name.length then (none, vfs)
  else if name = dotdot then (some (vfs.above dentry), vfs)
  else vfs.childNamed dentry name

theorem walk_cons : walk (name :: names) vfs dentry =
      if name = [] ∨ name = dot then walk names vfs dentry
      else
        match vfs.enter dentry name with
        | (none, after) => (none, after)
        | (some child, after) => walk names after child := by
  by_cases empty : name = []
  · rw [walk, if_pos empty, if_pos (.inl empty)]
  by_cases here : name = dot
  · rw [here]
    rfl
  rw [walk, if_neg empty, if_neg here, if_neg (not_or.mpr ⟨empty, here⟩), Vfs.enter]
  by_cases long : 256 ≤ name.length
  · rw [if_pos long, if_pos long]
  by_cases up : name = dotdot
  · rw [if_neg long, if_neg long, if_pos up, if_pos up]
  rw [if_neg long, if_neg long, if_neg up, if_neg up, Vfs.childNamed]
  cases vfs.dLookup dentry name with
  | some child => rfl
  | none =>
    cases vfs.isDirectory dentry with
    | false => rfl
    | true => rcases vfs.allocDentry dentry name with ⟨_ | child, after⟩ <;> rfl

theorem walk_append (vfs : Vfs) (start : Nat) : walk (first ++ second) vfs start =
      match walk first vfs start with
      | (none, after) => (none, after)
      | (some middle, after) => walk second after middle := by
  induction first generalizing vfs start with
  | nil => rfl
  | cons name names ih =>
    rw [List.cons_append, walk_cons, walk_cons]
    split
    · exact ih vfs start
    · rcases vfs.enter start name with ⟨_ | child, after⟩
      · rfl
      · exact ih after child

theorem walk_single (proper : Proper name) : walk [name] vfs parent = vfs.childNamed parent name := by
  rw [walk, if_neg proper.nonempty, if_neg (by have := proper.short; omega), if_neg proper.notDot,
    if_neg proper.notDotdot]
  rfl

theorem Vfs.isDirectory_some (directory : vfs.isDirectory addr = true) :
    ∃ dir, vfs.dentries addr = some dir ∧ dir.inode.any (·.isDir) = true := by
  cases stored : vfs.dentries addr with
  | none => simp [Vfs.isDirectory, Vfs.inodeOf, stored] at directory
  | some dir => exact ⟨dir, rfl, by simpa [Vfs.isDirectory, Vfs.inodeOf, stored] using directory⟩

/-- What a lookup in a directory finds has an inode exactly when a child has the name. -/
theorem Vfs.Consistent.walk_single_inode (consistent : vfs.Consistent) (directory : vfs.isDirectory parent = true)
    (proper : Proper name) :
    (∃ child after, walk [name] vfs parent = (some child, after) ∧ after.inodeOf child ≠ none) ↔
      ∃ child entry, vfs.dentries child = some entry ∧ entry.parent = some parent ∧ entry.name = name := by
  rw [walk_single proper, Vfs.childNamed]
  cases found : vfs.dLookup parent name with
  | some child =>
    obtain ⟨entry, stored, owner, named⟩ := consistent.dLookup_eq_some.mp found
    refine ⟨fun _ => ⟨child, entry, stored, owner, named⟩, fun _ => ⟨child, vfs, rfl, ?_⟩⟩
    simpa [Vfs.inodeOf, stored] using consistent.inodes child entry stored
  | none =>
    have missing : ¬∃ child entry, vfs.dentries child = some entry ∧ entry.parent = some parent ∧
        entry.name = name := by
      intro ⟨child, entry, below⟩
      cases found.symm.trans (consistent.dLookup_eq_some.mpr ⟨entry, below⟩)
    refine iff_of_false (fun ⟨child, after, walked, held⟩ => held ?_) missing
    obtain ⟨dir, stored, -⟩ := Vfs.isDirectory_some directory
    simp only [directory] at walked
    match available : vfs.pool with
    | [] => simp [Vfs.allocDentry, available] at walked
    | none :: pool => simp [Vfs.allocDentry, available] at walked
    | some addr :: pool =>
      rw [allocDentry_eq available (consistent.ne_allocated available stored) stored] at walked
      cases walked
      simp [Vfs.inodeOf, Vfs.ramfsLookup, Vfs.dAdd, Vfs.dRehash, Vfs.withDentry, Vfs.setDentry]

/-- `vfs_readdir` until it returns something other than 1. -/
def listFrom (fd : Nat) : (fuel : Nat) → Vfs → Option (List Vfs.Dirent)
  | 0, _ => none
  | fuel + 1, vfs =>
    match vfs.vfsReaddir fd with
    | (_, some entry, after) => (listFrom fd fuel after).map (entry :: ·)
    | (result, none, _) => if result = 0 then some [] else none

/-- The name that a listing reports for a child. -/
def Vfs.reported (vfs : Vfs) (addr : Nat) : Name := (((vfs.dentries addr).map (·.name)).getD []).take 255

def Vfs.atPosition (vfs : Vfs) (fd dirAddr fPos : Nat) : Vfs :=
  { vfs with fdTable := Function.update vfs.fdTable fd (some { dentry := dirAddr, fPos }) }

theorem vfsReaddir_atPosition (stored : vfs.dentries dirAddr = some dir) (directory : dir.inode.any (·.isDir) = true) :
    (vfs.atPosition fd dirAddr fPos).vfsReaddir fd =
      match vfs.ramfsReaddir dir fPos with
      | none => (0, none, vfs.atPosition fd dirAddr fPos)
      | some entry => (1, some entry, vfs.atPosition fd dirAddr (fPos + 1)) := by
  have view : (vfs.atPosition fd dirAddr fPos).ramfsReaddir dir fPos = vfs.ramfsReaddir dir fPos := rfl
  have opened : (vfs.atPosition fd dirAddr fPos).fdTable fd = some { dentry := dirAddr, fPos } :=
    Function.update_self ..
  have held : (vfs.atPosition fd dirAddr fPos).dentries dirAddr = some dir := stored
  simp only [Vfs.vfsReaddir, opened, held, directory, view]
  cases vfs.ramfsReaddir dir fPos with
  | none => rfl
  | some entry => simp [Vfs.atPosition]

section

variable {dirAddr : Nat} (fd : Nat) (stored : vfs.dentries dirAddr = some dir)
  (directory : dir.inode.any (·.isDir) = true)
  (members : ∀ child ∈ dir.subdirs, ∃ entry, vfs.dentries child = some entry)
include fd stored directory members

theorem listFrom_children (within : k ≤ dir.subdirs.length) :
    (listFrom fd (dir.subdirs.length - k + 1) (vfs.atPosition fd dirAddr (k + 2))).map
        (List.map (·.name)) = some ((dir.subdirs.drop k).map vfs.reported) := by
  induction remaining : dir.subdirs.length - k generalizing k with
  | zero =>
    have past : dir.subdirs.length ≤ k := by omega
    have ended : vfs.ramfsReaddir dir (k + 2) = none := by
      simp [Vfs.ramfsReaddir, past]
    rw [List.drop_eq_nil_of_le past, listFrom, vfsReaddir_atPosition stored directory, ended]
    rfl
  | succ remaining ih =>
    have inside : k < dir.subdirs.length := by omega
    obtain ⟨entry, known⟩ := members _ (List.getElem_mem inside)
    have next : vfs.ramfsReaddir dir (k + 2) = some
        { name := entry.name.take 255, off := k + 2, type := Vfs.direntType entry.inode } := by
      simp [Vfs.ramfsReaddir, List.getElem?_eq_getElem inside, known]
    have tail := ih (k := k + 1) (by omega) (by omega)
    have reported : vfs.reported dir.subdirs[k] = entry.name.take 255 := by
      simp [Vfs.reported, known]
    rw [List.drop_eq_getElem_cons inside, List.map_cons, reported, listFrom,
      vfsReaddir_atPosition stored directory, next]
    obtain ⟨entries, listed, names⟩ := Option.map_eq_some_iff.mp tail
    simp only [listed, Option.map_some, List.map_cons, names]

theorem listFrom_start :
    (listFrom fd (dir.subdirs.length + 3) (vfs.atPosition fd dirAddr 0)).map (List.map (·.name)) =
      some (dot :: dotdot :: dir.subdirs.map vfs.reported) := by
  have children := listFrom_children fd stored directory members (Nat.zero_le _)
  obtain ⟨entries, listed, names⟩ := Option.map_eq_some_iff.mp children
  have first : vfs.ramfsReaddir dir 0 = some { name := dot, off := 0, type := .dir } := rfl
  have second : vfs.ramfsReaddir dir 1 = some { name := dotdot, off := 1, type := .dir } := rfl
  have listed : listFrom fd (dir.subdirs.length + 1) (vfs.atPosition fd dirAddr (1 + 1)) = some entries :=
    listed
  rw [listFrom, vfsReaddir_atPosition stored directory, first]
  simp only
  rw [listFrom, vfsReaddir_atPosition stored directory, second]
  simp only [listed, Option.map_some, List.map_cons, names, List.drop_zero]

end

end Rucix.Fs.Ramfs
