import Rucix.Fs.Ramfs.Paths

namespace Rucix.Fs.Ramfs

/-! The calls that split a path into a parent and a name, against `path_walk`. -/

variable {vfs after : Vfs} {parent addr : Nat} {name : Name} {path : List UInt8}

/-- A name in a directory, as `vfs_unlink`, `vfs_rmdir` and `vfs_rename` resolve it. -/
def Vfs.lookupIn (vfs : Vfs) (parent : Nat) (name : Name) : Option Nat × Vfs :=
  match vfs.dLookup parent name with
  | some addr => (some addr, vfs)
  | none =>
    match vfs.allocDentry parent name with
    | (none, after) => (none, after)
    | (some addr, after) => (some addr, if vfs.isDirectory parent then after.ramfsLookup addr else after)

/-- Every dentry but the root has a name and is below one with an inode. -/
structure Vfs.Tree (vfs : Vfs) : Prop where
  fresh : vfs.Fresh
  root : vfs.dentries vfs.root ≠ none
  cwd : vfs.dentries vfs.cwd ≠ none
  below : ∀ addr entry parent, vfs.dentries addr = some entry → entry.parent = some parent →
    vfs.inodeOf parent ≠ none ∧ entry.name ≠ [] ∧ entry.name ≠ dot ∧ entry.name ≠ dotdot

/-- What the calls that take a parent and a name act on is what `path_walk` ends with. -/
def Vfs.SplitsAlike (vfs : Vfs) (path : List UInt8) (addr : Nat) (after : Vfs) : Prop :=
  ∃ parent middle, vfs.vfsResolveParent path true = (some parent, middle) ∧
    middle.lookupIn parent (nameOf path) = (some addr, after) ∧ vfs.mknodParent path = some (some parent, middle)

theorem lookupIn_of_walk (tree : vfs.Tree) (named : name ≠ [] ∧ name ≠ dot ∧ name ≠ dotdot)
    (walked : walk [name] vfs parent = (some addr, after)) :
    vfs.lookupIn parent name = (some addr, after) ∧ vfs.inodeOf parent ≠ none := by
  obtain ⟨nonempty, notDot, notUp⟩ := named
  simp only [walk, if_neg nonempty] at walked
  split at walked
  · cases walked
  rw [Vfs.lookupIn]
  cases cached : vfs.dLookup parent name with
  | some child =>
    obtain ⟨entry, stored, below, -⟩ := dLookup_some cached
    rw [cached] at walked
    exact ⟨walked, (tree.below child entry parent stored below).1⟩
  | none =>
    rw [cached] at walked
    cases directory : vfs.isDirectory parent with
    | false => simp [directory] at walked
    | true =>
      refine ⟨?_, fun empty => by simp [Vfs.isDirectory, empty] at directory⟩
      simp only [directory] at walked ⊢
      rcases allocated : vfs.allocDentry parent name with ⟨_ | child, middle⟩
      · simp [allocated] at walked
      · simpa [allocated] using walked

/-- A name that no dentry can have is given to a new one. -/
theorem lookupIn_unnamed (tree : vfs.Tree) (unnamed : name = [] ∨ name = dot ∨ name = dotdot)
    (stored : vfs.dentries addr ≠ none) : (vfs.lookupIn parent name).1 ≠ some addr := by
  intro found
  have missing : vfs.dLookup parent name = none := by
    rw [dLookup_eq_none]
    intro child ⟨_, entry, held, owner, same⟩
    have proper := (tree.below child entry parent held owner).2
    grind
  have fresh := tree.fresh.unused addr
  rw [Vfs.lookupIn, missing] at found
  match available : vfs.pool with
  | [] => simp [Vfs.allocDentry, available] at found
  | none :: pool => simp [Vfs.allocDentry, available] at found
  | some next :: pool =>
    obtain rfl : next = addr := by simpa [Vfs.allocDentry, available] using found
    exact stored (fresh (by simp [available]))

theorem Vfs.Tree.inode_stored (inode : vfs.inodeOf addr ≠ none) : vfs.dentries addr ≠ none := by
  intro empty
  exact inode (by simp [Vfs.inodeOf, empty])

theorem Vfs.Tree.leads (tree : vfs.Tree) (named : name ≠ [] ∧ name ≠ dot) (stored : vfs.dentries parent ≠ none)
    (leads : vfs.Leads parent name addr after) : after.Tree ∧ after.dentries addr ≠ none := by
  cases leads with
  | up _ up =>
    refine ⟨tree, ?_⟩
    rcases up with ⟨-, owner⟩ | ⟨rfl, -⟩
    · obtain ⟨entry, held, owner⟩ := Option.bind_eq_some_iff.mp owner
      exact Vfs.Tree.inode_stored (tree.below parent entry addr held owner).1
    · exact stored
  | cached _ cached =>
    obtain ⟨-, entry, held, -⟩ := cached
    exact ⟨tree, by simp [held]⟩
  | new notUp absent directory new =>
    obtain ⟨dir, held, listed⟩ := new.listed
    -- the inodes are those of before
    have kept : ∀ other, vfs.dentries other ≠ none → after.inodeOf other = vfs.inodeOf other ∧
        after.dentries other ≠ none := by
      intro other known
      by_cases here : other = parent
      · subst here
        simp [Vfs.inodeOf, held, listed]
      · have different : other ≠ addr := by
          rintro rfl
          exact known new.unused
        simpa [Vfs.inodeOf, new.others other different here] using known
    refine ⟨⟨(Vfs.Leads.new notUp absent directory new).fresh tree.fresh, new.same.1 ▸ (kept _ tree.root).2,
      new.same.2.1 ▸ (kept _ tree.cwd).2, fun other entry owner found owned => ?_⟩, by simp [new.entry]⟩
    have holder : vfs.inodeOf owner ≠ none → after.inodeOf owner ≠ none := by
      intro inode
      rwa [(kept owner (Vfs.Tree.inode_stored inode)).1]
    by_cases added : other = addr
    · subst added
      cases new.entry.symm.trans found
      cases owned
      refine ⟨holder fun empty => ?_, named.1, named.2, notUp⟩
      simp [Vfs.isDirectory, empty] at directory
    · by_cases here : other = parent
      · subst here
        cases listed.symm.trans found
        exact (tree.below other dir owner held owned).imp_left holder
      · rw [new.others other added here] at found
        exact (tree.below other entry owner found owned).imp_left holder

theorem Vfs.Tree.follows (tree : vfs.Tree) (named : ∀ name ∈ names, name ≠ [] ∧ name ≠ dot)
    (stored : vfs.dentries parent ≠ none) (follows : vfs.Follows parent names addr after) :
    after.Tree ∧ after.dentries addr ≠ none := by
  induction follows with
  | done => exact ⟨tree, stored⟩
  | step leads _ ih =>
    obtain ⟨tree, stored⟩ := tree.leads (named _ List.mem_cons_self) stored leads
    exact ih tree (fun name member => named name (List.mem_cons_of_mem _ member)) stored

theorem Vfs.Tree.walk (tree : vfs.Tree) (stored : vfs.dentries parent ≠ none)
    (walked : walk names vfs parent = (some addr, after)) : after.Tree ∧ after.dentries addr ≠ none := by
  rw [walk_eq_follow] at walked
  exact tree.follows (by simp +contextual) stored (tree.fresh.follows walked)

/-- All calls find the parent and the name that `path_walk` ends with where the last component
is a name, and `vfs_mknod` where moreover there is a slash and the parts fit its arrays. -/
theorem splitters_agree (tree : vfs.Tree) (walked : vfs.pathWalk path = (some addr, after)) :
    vfs.SplitsAlike path addr after ↔ (nameOf path ≠ [] ∧ nameOf path ≠ dot ∧ nameOf path ≠ dotdot) ∧ slash ∈ path ∧
      (nameOf path).length < maxFilenameLen ∧ path.length - (nameOf path).length - 1 < maxPathLen := by
  have start : vfs.dentries (vfs.startOf path) ≠ none := by
    unfold Vfs.startOf
    split
    · exact tree.root
    · exact tree.cwd
  rw [Vfs.pathWalk, parentOf_nameOf, walk_append] at walked
  rcases first : walk (parentOf path) vfs (vfs.startOf path) with ⟨_ | parent, middle⟩
  · rw [first] at walked
    cases walked
  rw [first] at walked
  obtain ⟨tree, stored⟩ := tree.walk start first
  constructor
  · intro ⟨holder, between, resolved, found, split⟩
    obtain ⟨rfl, rfl⟩ : parent = holder ∧ middle = between := by
      unfold Vfs.mknodParent at split
      grind
    refine ⟨?_, ?_⟩
    · by_contra proper
      have unnamed : nameOf path = [] ∨ nameOf path = dot ∨ nameOf path = dotdot := by grind
      refine lookupIn_unnamed tree unnamed ?_ (congrArg Prod.fst found)
      obtain rfl : middle = after := by
        rcases unnamed with name | name | name <;> rw [name] at walked <;> cases walked <;> rfl
      exact (tree.walk stored walked).2
    · unfold Vfs.mknodParent at split
      grind
  · intro ⟨named, member, short, narrow⟩
    obtain ⟨found, inode⟩ := lookupIn_of_walk tree named walked
    have fits := not_or.mpr ⟨Nat.not_le.mpr short, Nat.not_le.mpr narrow⟩
    refine ⟨parent, middle, ?_, found, ?_⟩
    · simp [Vfs.vfsResolveParent, first, Option.isSome_iff_ne_none, inode]
    · simp only [Vfs.mknodParent, if_neg (not_not.mpr member), if_neg fits, first]

theorem threeSpare_tree : threeSpare.Tree := by
  refine ⟨threeSpare_fresh, by decide, by decide, fun addr entry parent stored below => ?_⟩
  by_cases here : addr = 1
  · subst here
    cases stored
    cases below
  · simp [threeSpare, ramfsMount, here] at stored

/-- `/m/../b` in an empty directory. -/
theorem splitters_agree_up : threeSpare.SplitsAlike [47, 109, 47, 46, 46, 47, 98] 3
    (threeSpare.pathWalk [47, 109, 47, 46, 46, 47, 98]).2 :=
  (splitters_agree threeSpare_tree rfl).mpr (by decide)

/-- `/a/` leads to the new name, but has no parent, and `a` has none for `vfs_mknod`. -/
theorem trailing_slash_split : threeSpare.Tree ∧ (threeSpare.pathWalk [47, 97, 47]).1 = some 2 ∧
    (threeSpare.vfsResolveParent [47, 97, 47] true).1 = none ∧ (threeSpare.pathWalk [97]).1 = some 2 ∧
    threeSpare.mknodParent [97] = some (none, threeSpare) := by
  exact ⟨threeSpare_tree, by decide +kernel, by decide +kernel, by decide +kernel, rfl⟩

end Rucix.Fs.Ramfs
