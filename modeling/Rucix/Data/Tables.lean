import Mathlib.Data.List.Infix
import Mathlib.Data.Option.Basic

namespace Rucix.Data.Tables

/-! Trees of tables in one memory.

A memory maps a frame and an index to a word, and `child` reads a word as a
pointer to a further frame.  A walk follows such pointers from a root frame.
When every frame is reached by one path only, storing into a leaf table or
linking a fresh frame changes no other walk.
-/

variable {F I V : Type*} {child : V → Option F} {memory after : F → I → V} {root frame fresh : F}
  {path other : List I} {index : I} {depth : Nat}

def walk (child : V → Option F) (memory : F → I → V) : F → List I → Option F
  | frame, [] => some frame
  | frame, index :: rest => (child (memory frame index)).bind fun next => walk child memory next rest

theorem walk_append : walk child memory frame (path ++ rest) =
      (walk child memory frame path).bind fun middle => walk child memory middle rest := by
  induction path generalizing frame with
  | nil => rfl
  | cons index path ih => simp only [List.cons_append, walk, ih, Option.bind_assoc]

theorem walk_snoc (reached : walk child memory root path = some frame) :
    walk child memory root (path ++ [index]) = child (memory frame index) := by
  simp only [walk_append, reached]
  exact Option.bind_fun_some _

/-- A walk depends only on the words it reads. -/
theorem walk_congr (same : ∀ before index behind frame, path = before ++ index :: behind →
      walk child memory root before = some frame → after frame index = memory frame index) :
    walk child after root path = walk child memory root path := by
  induction path generalizing root with
  | nil => rfl
  | cons index rest ih =>
    have here := same [] index rest root rfl rfl
    simp only [walk, here]
    cases next : child (memory root index) with
    | none => rfl
    | some middle =>
      refine ih fun before later behind frame split reached => ?_
      refine same (index :: before) later behind frame (by rw [split]; rfl) ?_
      simp only [walk, next, Option.bind_some, reached]

/-- No frame is reached by two paths of at most `depth` indices. -/
def TreeShaped (child : V → Option F) (memory : F → I → V) (root : F) (depth : Nat) : Prop :=
  ∀ path other frame, path.length ≤ depth → other.length ≤ depth →
    walk child memory root path = some frame → walk child memory root other = some frame →
    path = other

def IsTable (child : V → Option F) (memory : F → I → V) (root : F) (depth : Nat) (frame : F) :
    Prop :=
  ∃ path, path.length ≤ depth ∧ walk child memory root path = some frame

/-- The word a leaf table holds, or `absent` if the walk ends early. -/
def entry (child : V → Option F) (memory : F → I → V) (root : F) (absent : V) (path : List I)
    (index : I) : V :=
  ((walk child memory root path).map fun frame => memory frame index).getD absent

variable (tree : TreeShaped child memory root depth)
include tree

section

variable (full : path.length = depth) (reached : walk child memory root path = some frame)
  (same : ∀ table slot, table ≠ frame ∨ slot ≠ index → after table slot = memory table slot)
include full reached same

theorem walk_store (bounded : other.length ≤ depth) : walk child after root other = walk child memory root other := by
  refine walk_congr fun before slot behind table split visited => same table slot (.inl ?_)
  rintro rfl
  have short : before.length < depth := by
    rw [split, List.length_append, List.length_cons] at bounded
    omega
  have equal := tree before path table (by omega) (by omega) visited reached
  rw [equal] at short
  omega

theorem TreeShaped.store : TreeShaped child after root depth := by
  intro left right table leftBound rightBound first second
  rw [walk_store tree full reached same leftBound] at first
  rw [walk_store tree full reached same rightBound] at second
  exact tree left right table leftBound rightBound first second

theorem entry_store [DecidableEq I] (absent : V) (otherFull : other.length = depth) (slot : I) :
    entry child after root absent other slot =
      if other = path ∧ slot = index then after frame index
      else entry child memory root absent other slot := by
  rw [entry, entry, walk_store tree full reached same (by omega)]
  cases visited : walk child memory root other with
  | none =>
    have elsewhere : ¬(other = path ∧ slot = index) := by
      rintro ⟨rfl, -⟩
      rw [reached] at visited
      cases visited
    rw [if_neg elsewhere]
    rfl
  | some table =>
    simp only [Option.map_some, Option.getD_some]
    by_cases here : other = path ∧ slot = index
    · obtain ⟨rfl, rfl⟩ := here
      rw [reached] at visited
      cases visited
      rw [if_pos ⟨rfl, rfl⟩]
    · rw [if_neg here]
      apply same
      by_contra both
      rw [not_or, not_not, not_not] at both
      obtain ⟨rfl, rfl⟩ := both
      exact here ⟨tree other path table (by omega) (by omega) visited reached, rfl⟩

end

omit tree in
/-- What linking a cleared `fresh` frame below slot `index` of `frame` does to
the memory. -/
structure Links (child : V → Option F) (memory after : F → I → V) (frame : F) (index : I)
    (fresh : F) (absent : V) : Prop where
  vacant : child (memory frame index) = none
  linked : child (after frame index) = some fresh
  cleared : ∀ slot, after fresh slot = absent
  same : ∀ table slot, table ≠ fresh → (table ≠ frame ∨ slot ≠ index) →
    after table slot = memory table slot

variable {absent : V} (links : Links child memory after frame index fresh absent) (empty : child absent = none)
  (reached : walk child memory root path = some frame) (short : path.length < depth)
  (unused : ¬IsTable child memory root depth fresh)
include links empty reached short unused

theorem walk_link [DecidableEq I] (bounded : other.length ≤ depth) : walk child after root other =
      if other = path ++ [index] then some fresh else walk child memory root other := by
  have keeps : ∀ {target : List I}, target.length ≤ depth → ¬(path ++ [index]) <+: target →
      walk child after root target = walk child memory root target := by
    intro target targetBound apart
    refine walk_congr fun before slot behind table split visited => ?_
    have beforeBound : before.length ≤ depth := by
      rw [split, List.length_append] at targetBound
      omega
    refine links.same table slot ?_ ?_
    · rintro rfl
      exact unused ⟨before, beforeBound, visited⟩
    · by_contra both
      rw [not_or, not_not, not_not] at both
      obtain ⟨rfl, rfl⟩ := both
      have equal := tree before path table beforeBound (by omega) visited reached
      rw [equal] at split
      exact apart ⟨behind, by rw [split, List.append_assoc]; rfl⟩
  have stays : walk child after root path = some frame := by
    rw [← reached]
    refine keeps (by omega) fun extends_ => ?_
    have := extends_.length_le
    rw [List.length_append, List.length_singleton] at this
    omega
  by_cases below : (path ++ [index]) <+: other
  · obtain ⟨rest, rfl⟩ := below
    rw [List.append_assoc, walk_append, walk_append, stays, reached]
    simp only [Option.bind_some, List.singleton_append, walk, links.linked, links.vacant]
    cases rest with
    | nil => simp [walk]
    | cons slot rest => simp [walk, links.cleared, empty]
  · rw [keeps bounded below, if_neg]
    rintro rfl
    exact below (List.prefix_refl _)

theorem TreeShaped.link [DecidableEq I] : TreeShaped child after root depth := by
  intro left right table leftBound rightBound first second
  rw [walk_link tree links empty reached short unused leftBound] at first
  rw [walk_link tree links empty reached short unused rightBound] at second
  split at first <;> split at second
  · simp_all
  · cases first
    exact absurd ⟨right, rightBound, second⟩ unused
  · cases second
    exact absurd ⟨left, leftBound, first⟩ unused
  · exact tree left right table leftBound rightBound first second

theorem IsTable.of_link [DecidableEq I] (used : IsTable child after root depth table) :
    IsTable child memory root depth table ∨ table = fresh := by
  obtain ⟨target, bounded, visited⟩ := used
  rw [walk_link tree links empty reached short unused bounded] at visited
  split at visited
  · cases visited
    exact .inr rfl
  · exact .inl ⟨target, bounded, visited⟩

theorem entry_link [DecidableEq I] (full : other.length = depth) :
    entry child after root absent other slot = entry child memory root absent other slot := by
  rw [entry, entry, walk_link tree links empty reached short unused (by omega)]
  split
  · rename_i here
    rw [here, walk_snoc reached, links.vacant]
    exact links.cleared slot
  · cases visited : walk child memory root other with
    | none => rfl
    | some table =>
      refine links.same table slot ?_ (.inl ?_)
      · rintro rfl
        exact unused ⟨other, by omega, visited⟩
      · rintro rfl
        have equal := tree other path table (by omega) (by omega) visited reached
        rw [equal] at full
        omega

end Rucix.Data.Tables
