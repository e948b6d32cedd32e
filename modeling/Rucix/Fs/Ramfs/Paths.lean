import Rucix.Fs.Ramfs.Lookup

namespace Rucix.Fs.Ramfs

/-! `path_walk` of `kernel/fs/vfs.c` as a fold over the components of the path. -/

variable {vfs : Vfs} {parent dentry addr : Nat} {name : Name} {path piece : List UInt8}

def firstPiece (rest : List UInt8) : Name := rest.takeWhile (· ≠ slash)

def behindPiece (rest : List UInt8) : List UInt8 := (rest.dropWhile (· ≠ slash)).drop 1

theorem behindPiece_shorter (char : UInt8) (more : List UInt8) :
    (behindPiece (char :: more)).length < (char :: more).length := by
  have short := (List.dropWhile_suffix (· ≠ slash) (l := char :: more)).length_le
  rw [behindPiece, List.length_drop]
  simp only [List.length_cons] at short ⊢
  omega

theorem components_cases : components rest = firstPiece rest :: components (behindPiece rest) ∨
      components rest = [firstPiece rest] ∧ behindPiece rest = [] := by
  induction rest with
  | nil => exact .inr ⟨rfl, rfl⟩
  | cons char more ih =>
    by_cases isSlash : char = slash
    · exact .inl (by simp [components, firstPiece, behindPiece, isSlash])
    · have piece : firstPiece (char :: more) = char :: firstPiece more := by simp [firstPiece, isSlash]
      have behind : behindPiece (char :: more) = behindPiece more := by simp [behindPiece, isSlash]
      rw [piece, behind, components, if_neg isSlash]
      obtain pieces | ⟨pieces, ended⟩ := ih
      · exact .inl (by rw [pieces])
      · exact .inr ⟨by rw [pieces], ended⟩

/-- The loop of `path_walk` over the characters that are left.  In every branch a slash
behind the component is consumed. -/
def scanPath (rest : List UInt8) (vfs : Vfs) (dentry : Nat) : Option Nat × Vfs :=
  match rest with
  | [] => (some dentry, vfs)
  | char :: more =>
    let component := firstPiece (char :: more)
    let next := behindPiece (char :: more)
    if component = [] then scanPath next vfs dentry
    else if 256 ≤ component.length then (none, vfs)
    else if component = dot then scanPath next vfs dentry
    else if component = dotdot then scanPath next vfs (vfs.above dentry)
    else
      match vfs.dLookup dentry component with
      | some child => scanPath next vfs child
      | none =>
        if vfs.isDirectory dentry = false then (none, vfs)
        else
          match vfs.allocDentry dentry component with
          | (none, vfs) => (none, vfs)
          | (some child, vfs) => scanPath next (vfs.ramfsLookup child) child
termination_by rest.length
decreasing_by all_goals exact behindPiece_shorter char more

/-- `path_walk` as the source has it, over characters. -/
def Vfs.pathScan (vfs : Vfs) : List UInt8 → Option Nat × Vfs
  | [] => (some vfs.cwd, vfs)
  | char :: more =>
    if char = slash then scanPath more vfs vfs.root else scanPath (char :: more) vfs vfs.cwd

theorem walk_components : walk (components rest) vfs dentry =
    walk (firstPiece rest :: components (behindPiece rest)) vfs dentry := by
  obtain pieces | ⟨pieces, ended⟩ := components_cases
  · rw [pieces]
  · -- the piece behind the end of the string is empty
    rw [pieces, ended, walk_cons, walk_cons]
    rfl

theorem scanPath_eq (rest : List UInt8) (vfs : Vfs) (dentry : Nat) :
    scanPath rest vfs dentry = walk (components rest) vfs dentry := by
  induction size : rest.length using Nat.strongRecOn generalizing rest vfs dentry with
  | _ size ih =>
    cases rest with
    | nil =>
      rw [scanPath]
      rfl
    | cons char more =>
      have next : ∀ vfs dentry, scanPath (behindPiece (char :: more)) vfs dentry =
          walk (components (behindPiece (char :: more))) vfs dentry :=
        fun vfs dentry => ih _ (size ▸ behindPiece_shorter char more) _ vfs dentry rfl
      rw [scanPath, walk_components]
      simp only [next]
      rfl

/-- The names that `path_walk` follows one after the other, until one of them fails. -/
def Vfs.follow : List Name → Vfs → Nat → Option Nat × Vfs
  | [], vfs, dentry => (some dentry, vfs)
  | name :: names, vfs, dentry =>
    match vfs.enter dentry name with
    | (none, after) => (none, after)
    | (some child, after) => after.follow names child

/-- The components of a path without empty ones and `.`. -/
def stepsOf (path : List UInt8) : List Name := (components path).filter fun name => ¬(name = [] ∨ name = dot)

theorem walk_eq_follow (names : List Name) (vfs : Vfs) (dentry : Nat) :
    walk names vfs dentry = vfs.follow (names.filter fun name => ¬(name = [] ∨ name = dot)) dentry := by
  induction names generalizing vfs dentry with
  | nil => rfl
  | cons name names ih =>
    rw [walk_cons]
    split
    next skipped => rw [ih, List.filter_cons_of_neg (by simp [skipped])]
    next kept =>
      rw [List.filter_cons_of_pos (by simp [kept]), Vfs.follow]
      rcases vfs.enter dentry name with ⟨_ | child, after⟩
      · rfl
      · exact ih after child

theorem pathScan_eq : vfs.pathScan path = vfs.follow (stepsOf path) (vfs.startOf path) := by
  rw [stepsOf, ← walk_eq_follow]
  cases path with
  | nil => rfl
  | cons char more =>
    rw [Vfs.pathScan, Vfs.startOf, scanPath_eq, scanPath_eq]
    by_cases absolute : char = slash
    · simp [absolute, components, walk_cons]
    · simp [absolute]

/-- A dentry with this parent and name in their hash chain. -/
def Vfs.CachedChild (vfs : Vfs) (parent : Nat) (name : Name) (addr : Nat) : Prop :=
  addr ∈ vfs.table (dHash parent name) ∧
    ∃ entry, vfs.dentries addr = some entry ∧ entry.parent = some parent ∧ entry.name = name

theorem dLookup_cached (found : vfs.dLookup parent name = some addr) : vfs.CachedChild parent name addr :=
  ⟨List.mem_of_find?_eq_some found, dLookup_some found⟩

theorem dLookup_eq_none : vfs.dLookup parent name = none ↔ ∀ addr, ¬vfs.CachedChild parent name addr := by
  rw [Vfs.dLookup, List.find?_eq_none]
  refine forall_congr' fun addr => ?_
  cases stored : vfs.dentries addr <;> simp [Vfs.CachedChild, stored]

/-- `..` is the parent, except at the root. -/
def Vfs.Up (vfs : Vfs) (place child : Nat) : Prop :=
  (place ≠ vfs.root ∧ (vfs.dentries place).bind (·.parent) = some child) ∨
    child = place ∧ (place = vfs.root ∨ (vfs.dentries place).bind (·.parent) = none)

/-- `after` has a new negative child `child` of that name in `place` and is the same otherwise. -/
structure Vfs.NewChild (vfs : Vfs) (place : Nat) (name : Name) (child : Nat) (after : Vfs) : Prop where
  pool : vfs.pool = some child :: after.pool
  unused : vfs.dentries child = none
  entry : after.dentries child = some { parent := some place, name, inode := none, hashed := true, subdirs := [] }
  listed : ∃ dir, vfs.dentries place = some dir ∧
    after.dentries place = some { dir with subdirs := child :: dir.subdirs }
  others : ∀ other, other ≠ child → other ≠ place → after.dentries other = vfs.dentries other
  table : after.table = Function.update vfs.table (dHash place name) (child :: vfs.table (dHash place name))
  same : after.root = vfs.root ∧ after.cwd = vfs.cwd ∧ after.fdTable = vfs.fdTable

/-- Where one component leads: to the parent, the cached child or a new one. -/
inductive Vfs.Leads (vfs : Vfs) (place : Nat) (name : Name) : Nat → Vfs → Prop where
  | up (dots : name = dotdot) (up : vfs.Up place child) : Leads vfs place name child vfs
  | cached (named : name ≠ dotdot) (cached : vfs.CachedChild place name child) : Leads vfs place name child vfs
  | new (named : name ≠ dotdot) (absent : ∀ other, ¬vfs.CachedChild place name other)
      (directory : vfs.isDirectory place = true) (new : vfs.NewChild place name child after) :
      Leads vfs place name child after

inductive Vfs.Follows : Vfs → Nat → List Name → Nat → Vfs → Prop where
  | done {vfs : Vfs} {place : Nat} : Follows vfs place [] place vfs
  | step {vfs : Vfs} {place : Nat} {name : Name} (leads : vfs.Leads place name middle between)
      (follows : Follows between middle names child after) : Follows vfs place (name :: names) child after

/-- No dentry has an address that is still to be allocated. -/
structure Vfs.Fresh (vfs : Vfs) : Prop where
  unused : ∀ addr, some addr ∈ vfs.pool → vfs.dentries addr = none
  distinct : (vfs.pool.filterMap id).Nodup

/-- The next `count` allocations succeed. -/
def Vfs.Supplied (vfs : Vfs) (count : Nat) : Prop := ∀ k < count, ∃ addr, vfs.pool[k]? = some (some addr)

/-- The name is too long, or is not cached and cannot be looked up. -/
def Vfs.Refuses (vfs : Vfs) (place : Nat) (name : Name) : Prop :=
  256 ≤ name.length ∨
    name ≠ dotdot ∧ (∀ child, ¬vfs.CachedChild place name child) ∧ vfs.isDirectory place = false

theorem Vfs.up_above : vfs.Up dentry (vfs.above dentry) := by
  unfold Vfs.above Vfs.Up
  by_cases top : dentry = vfs.root
  · simp [top]
  · cases (vfs.dentries dentry).bind (·.parent) <;> simp [top]

theorem Vfs.Fresh.newChild (fresh : vfs.Fresh) (directory : vfs.isDirectory parent = true)
    (allocated : vfs.allocDentry parent name = (some addr, middle)) :
    vfs.NewChild parent name addr (middle.ramfsLookup addr) := by
  obtain ⟨dir, stored, -⟩ := Vfs.isDirectory_some directory
  match available : vfs.pool with
  | [] => simp [Vfs.allocDentry, available] at allocated
  | none :: pool => simp [Vfs.allocDentry, available] at allocated
  | some next :: pool =>
    have unused : vfs.dentries next = none := fresh.unused next (by simp [available])
    have different : parent ≠ next := by
      rintro rfl
      cases unused.symm.trans stored
    rw [allocDentry_eq available different stored] at allocated
    cases allocated
    constructor <;> simp +contextual [Vfs.ramfsLookup, Vfs.dAdd, Vfs.dRehash, Vfs.withDentry, Vfs.setDentry, available,
      unused, stored, different]

theorem Vfs.Leads.fresh (leads : vfs.Leads parent name addr after) (fresh : vfs.Fresh) : after.Fresh := by
  cases leads with
  | up | cached => exact fresh
  | new _ _ directory new =>
    obtain ⟨distinct, rest⟩ : addr ∉ after.pool.filterMap id ∧ (after.pool.filterMap id).Nodup := by
      simpa only [new.pool, List.filterMap_cons, id, List.nodup_cons] using fresh.distinct
    refine ⟨fun other member => ?_, rest⟩
    have unused := fresh.unused other (new.pool ▸ List.mem_cons_of_mem _ member)
    obtain ⟨dir, stored, -⟩ := new.listed
    rw [new.others other, unused]
    · rintro rfl
      exact distinct (List.mem_filterMap.mpr ⟨_, member, rfl⟩)
    · rintro rfl
      cases unused.symm.trans stored

theorem Vfs.Leads.supplied (leads : vfs.Leads parent name addr after) (supplied : vfs.Supplied (count + 1)) :
    after.Supplied count := by
  intro k small
  cases leads with
  | up | cached => exact supplied k (by omega)
  | new _ _ _ new => simpa [new.pool] using supplied (k + 1) (by omega)

theorem Vfs.Fresh.enter_leads (fresh : vfs.Fresh) (entered : vfs.enter parent name = (some addr, after)) :
    ¬vfs.Refuses parent name ∧ vfs.Leads parent name addr after := by
  rw [Vfs.Refuses, ← dLookup_eq_none]
  unfold Vfs.enter Vfs.childNamed at entered
  split at entered
  · cases entered
  next short =>
  split at entered
  next dots =>
    cases entered
    exact ⟨by simp [dots], .up dots Vfs.up_above⟩
  next named =>
  split at entered
  next found =>
    cases entered
    exact ⟨by simp [short, found], .cached named (dLookup_cached found)⟩
  next missing =>
  split at entered
  · cases entered
  next directory =>
  rw [Bool.not_eq_false] at directory
  split at entered
  · cases entered
  next allocated =>
    cases entered
    have new := fresh.newChild directory allocated
    exact ⟨by simp [short, directory], .new named (dLookup_eq_none.mp missing) directory new⟩

theorem Vfs.Supplied.refuses (supplied : vfs.Supplied (count + 1)) (failed : (vfs.enter parent name).1 = none) :
    vfs.Refuses parent name := by
  obtain ⟨next, first⟩ := supplied 0 (by omega)
  have allocated : (vfs.allocDentry parent name).1 = some next := by
    match available : vfs.pool with
    | [] => simp [available] at first
    | head :: pool =>
      obtain rfl : head = some next := by simpa [available] using first
      simp [Vfs.allocDentry, available]
  rw [Vfs.enter, Vfs.childNamed] at failed
  rw [Vfs.Refuses, ← dLookup_eq_none]
  rcases vfs.allocDentry parent name with ⟨_ | child, after⟩ <;> grind

theorem Vfs.Fresh.follows (fresh : vfs.Fresh) (followed : vfs.follow names parent = (some addr, after)) :
    vfs.Follows parent names addr after := by
  induction names generalizing vfs parent with
  | nil =>
    cases followed
    exact .done
  | cons name names ih =>
    rw [Vfs.follow] at followed
    rcases entered : vfs.enter parent name with ⟨_ | child, middle⟩
    · rw [entered] at followed
      cases followed
    · rw [entered] at followed
      have leads := (fresh.enter_leads entered).2
      exact .step leads (ih (leads.fresh fresh) followed)

theorem follow_eq_none (fresh : vfs.Fresh) (supplied : vfs.Supplied names.length) :
    (vfs.follow names dentry).1 = none ↔ ∃ before name rest place after, names = before ++ name :: rest ∧
      vfs.follow before dentry = (some place, after) ∧ after.Refuses place name := by
  induction names generalizing vfs dentry with
  | nil => simp [Vfs.follow]
  | cons first names ih =>
    rw [Vfs.follow]
    rcases entered : vfs.enter dentry first with ⟨_ | child, after⟩
    · exact iff_of_true rfl ⟨[], first, names, dentry, vfs, rfl, rfl, supplied.refuses (by rw [entered])⟩
    obtain ⟨accepted, leads⟩ := fresh.enter_leads entered
    simp only [ih (leads.fresh fresh) (leads.supplied supplied)]
    constructor
    · rintro ⟨before, name, rest, place, final, rfl, walked, refused⟩
      exact ⟨first :: before, name, rest, place, final, rfl, by simp [Vfs.follow, entered, walked], refused⟩
    · rintro ⟨_ | ⟨head, before⟩, name, rest, place, final, split, walked, refused⟩
      · cases split
        cases walked
        exact absurd refused accepted
      · cases split
        rw [Vfs.follow, entered] at walked
        exact ⟨before, name, rest, place, final, rfl, walked, refused⟩

theorem stepsOf_append : stepsOf (path ++ slash :: rest) = stepsOf path ++ stepsOf rest := by
  rw [stepsOf, components_append, List.filter_append]
  rfl

/-- A piece without a component that is not empty and not `.` changes nothing. -/
theorem pathScan_skip (skipped : stepsOf piece = []) :
    vfs.pathScan (first ++ slash :: (piece ++ slash :: rest)) = vfs.pathScan (first ++ slash :: rest) := by
  have start : vfs.startOf (first ++ slash :: (piece ++ slash :: rest)) = vfs.startOf (first ++ slash :: rest) := by
    cases first <;> rfl
  rw [pathScan_eq, pathScan_eq, start, stepsOf_append, stepsOf_append, stepsOf_append, skipped, List.nil_append]

theorem pathScan_trailing (nonempty : path ≠ []) : vfs.pathScan (path ++ [slash]) = vfs.pathScan path := by
  have start : vfs.startOf (path ++ [slash]) = vfs.startOf path := by
    cases path with
    | nil => exact absurd rfl nonempty
    | cons char more => rfl
  rw [pathScan_eq, pathScan_eq, start, stepsOf_append, show stepsOf [] = [] from rfl, List.append_nil]

/-- The walk follows the components, fails exactly at the first one that is refused, and
slashes and `.` components beyond those needed change nothing. -/
theorem path_walk_folds_components (fresh : vfs.Fresh) (supplied : vfs.Supplied (stepsOf path).length) :
    vfs.pathScan path = vfs.follow (stepsOf path) (vfs.startOf path) ∧
    (∀ before, before <+: stepsOf path → ∀ place after,
      vfs.follow before (vfs.startOf path) = (some place, after) → vfs.Follows (vfs.startOf path) before place after) ∧
    ((vfs.pathScan path).1 = none ↔ ∃ before name rest place after, stepsOf path = before ++ name :: rest ∧
      vfs.follow before (vfs.startOf path) = (some place, after) ∧ after.Refuses place name) ∧
    (∀ first rest, vfs.pathScan (first ++ slash :: slash :: rest) = vfs.pathScan (first ++ slash :: rest)) ∧
    (∀ first rest, vfs.pathScan (first ++ slash :: 46 :: slash :: rest) = vfs.pathScan (first ++ slash :: rest)) ∧
    (path ≠ [] → vfs.pathScan (path ++ [slash]) = vfs.pathScan path) := by
  refine ⟨pathScan_eq, fun _ _ _ _ => fresh.follows, ?_,
    fun first rest => pathScan_skip (show stepsOf [] = [] from rfl),
    fun first rest => pathScan_skip (show stepsOf [46] = [] from rfl), pathScan_trailing⟩
  rw [pathScan_eq]
  exact follow_eq_none fresh supplied

def threeSpare : Vfs := ramfsMount 1 [some 2, some 3, some 4]

theorem threeSpare_fresh : threeSpare.Fresh := by
  refine ⟨fun addr member => ?_, by decide⟩
  obtain rfl | rfl | rfl : addr = 2 ∨ addr = 3 ∨ addr = 4 := by simpa [threeSpare, ramfsMount] using member
  all_goals rfl

/-- `/a/..//b` leads to the second new dentry, in the root. -/
theorem path_walk_folds_components_up : ∃ after,
    threeSpare.pathScan [47, 97, 47, 46, 46, 47, 47, 98] = (some 3, after) ∧
      threeSpare.Follows 1 [[97], dotdot, [98]] 3 after := by
  have supplied : threeSpare.Supplied 3 := by
    intro k small
    obtain rfl | rfl | rfl : k = 0 ∨ k = 1 ∨ k = 2 := by omega
    all_goals exact ⟨_, rfl⟩
  obtain ⟨fold, follows, -⟩ := path_walk_folds_components threeSpare_fresh
    (show threeSpare.Supplied (stepsOf [47, 97, 47, 46, 46, 47, 47, 98]).length from supplied)
  exact ⟨_, fold.trans rfl, follows _ List.prefix_rfl _ _ rfl⟩

end Rucix.Fs.Ramfs
