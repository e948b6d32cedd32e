import Rucix.Data.Radix
import Rucix.Data.Run

namespace Rucix.Lib

open Rucix.Data Function

/-! The radix tree of `kernel/lib/radix-tree.c`.

The type of a subtree depends on its height.  An update in place is modelled by
rebuilding the path to the root.  `allocs k` says whether call number `k` of
`radix_tree_node_alloc` succeeds.
-/

def radixTreeMapShift : Nat := 6

abbrev radixTreeMapSize : Nat := 64

structure RadixTreeNode (β : Type) where
  count : Nat
  slots : Fin radixTreeMapSize → Option β

/-- What a slot points to that is `height` levels above the items. -/
abbrev Subtree (α : Type) : Nat → Type
  | 0 => α
  | height + 1 => RadixTreeNode (Subtree α height)

structure RadixTreeRoot (α : Type) where
  height : Nat
  rnode : Option (Subtree α height)

variable {α : Type}

def radixTreeInit : RadixTreeRoot α := ⟨0, none⟩

/-- A node as `radix_tree_node_alloc` returns it. -/
def emptyNode {β : Type} : RadixTreeNode β := ⟨0, fun _ => none⟩

/-- `(1UL << (height * RADIX_TREE_MAP_SHIFT)) - 1`, where the shift count is
taken modulo 64. -/
def maxIndex (height : Nat) : Nat := 2 ^ (height * radixTreeMapShift % 64) - 1

/-- `(index >> shift) & RADIX_TREE_MAP_MASK` -/
def offsetAt (shift index : Nat) : Fin radixTreeMapSize :=
  ⟨(index >>> (shift % 64)) &&& (radixTreeMapSize - 1),
    Nat.lt_of_le_of_lt Nat.and_le_right (by decide)⟩

def insertOffset (shift index : Nat) : Fin radixTreeMapSize :=
  if 64 ≤ shift then 0 else offsetAt shift index

/-- The first loop of `radix_tree_insert`: the number of digits of an index. -/
def indexDigits (index : Nat) : Nat :=
  if positive : 0 < index then indexDigits (index >>> radixTreeMapShift) + 1 else 0
termination_by index
decreasing_by
  rw [Nat.shiftRight_eq_div_pow]
  exact Nat.div_lt_self positive (by decide)

/-- The first loop of `radix_tree_extend`; `none` means `fuel` ran out. -/
def extendHeight (index : Nat) : (fuel height : Nat) → Option Nat
  | 0, _ => none
  | fuel + 1, height =>
    if maxIndex height < index then extendHeight index fuel (height + 1) else some height

/-- The second loop of `radix_tree_extend`: put `levels` nodes on top of the
root.  Returns whether all allocations succeeded and the next call number. -/
def growRoot (allocs : Nat → Bool) :
    (levels : Nat) → RadixTreeRoot α → (call : Nat) → Bool × RadixTreeRoot α × Nat
  | 0, root, call => (true, root, call)
  | levels + 1, root, call =>
    if allocs call then
      let node : Subtree α (root.height + 1) :=
        { count := 1, slots := update (fun _ => none) 0 root.rnode }
      growRoot allocs levels ⟨root.height + 1, some node⟩ (call + 1)
    else (false, root, call + 1)

def radixTreeExtend (allocs : Nat → Bool) (fuel : Nat) (root : RadixTreeRoot α) (index call : Nat) :
    Option (Bool × RadixTreeRoot α × Nat) := do
  let height ← extendHeight index fuel (root.height + 1)
  let root := match root.rnode with
    | none => ⟨height, none⟩
    | some _ => root
  return growRoot allocs (height - root.height) root call

/-- The descent of `radix_tree_insert` in a node whose slots are `height` levels
above the items. -/
def insertInto (allocs : Nat → Bool) (index : Nat) (item : α) :
    (height : Nat) → RadixTreeNode (Subtree α height) → (call : Nat) →
      Bool × RadixTreeNode (Subtree α height) × Nat
  | 0, node, call =>
    let offset := insertOffset 0 index
    match node.slots offset with
    | some _ => (false, node, call)
    | none =>
      (true, { count := node.count + 1, slots := update node.slots offset (some item) },
        call)
  | height + 1, node, call =>
    let offset := insertOffset ((height + 1) * radixTreeMapShift) index
    match node.slots offset with
    | some child =>
      let (inserted, child, call) := insertInto allocs index item height child call
      (inserted, { node with slots := update node.slots offset (some child) }, call)
    | none =>
      if allocs call then
        let (inserted, child, call) := insertInto allocs index item height emptyNode (call + 1)
        (inserted,
          { count := node.count + 1, slots := update node.slots offset (some child) },
          call)
      else (false, node, call + 1)

/-- `radix_tree_insert` from the point where the root is tall enough.  The root
has a height by then, so a height of 0 leaves the loop at once. -/
def insertRoot (allocs : Nat → Bool) (index : Nat) (item : α) :
    RadixTreeRoot α → (call : Nat) → Bool × RadixTreeRoot α × Nat
  | ⟨0, rnode⟩, call => (false, ⟨0, rnode⟩, call)
  | ⟨height + 1, some node⟩, call =>
    let (inserted, node, call) := insertInto allocs index item height node call
    (inserted, ⟨height + 1, some node⟩, call)
  | ⟨height + 1, none⟩, call =>
    if allocs call then
      let (inserted, node, call) := insertInto allocs index item height emptyNode (call + 1)
      (inserted, ⟨height + 1, some node⟩, call)
    else (false, ⟨height + 1, none⟩, call + 1)

/-- Returns whether the call returned 0, the new tree, and how often it called
`radix_tree_node_alloc`. -/
def radixTreeInsert (allocs : Nat → Bool) (fuel : Nat) (root : RadixTreeRoot α) (index : Nat)
    (item : α) : Option (Bool × RadixTreeRoot α × Nat) :=
  let root := match root with
    | ⟨0, none⟩ => ⟨max 1 (indexDigits index), none⟩
    | other => other
  if maxIndex root.height < index then do
    let (extended, root, call) ← radixTreeExtend allocs fuel root index 0
    if extended then return insertRoot allocs index item root call else return (false, root, call)
  else some (insertRoot allocs index item root 0)

/-- The loop of `radix_tree_lookup`. -/
def lookupIn (index : Nat) : (height : Nat) → RadixTreeNode (Subtree α height) → Option α
  | 0, node => node.slots (offsetAt 0 index)
  | height + 1, node =>
    match node.slots (offsetAt ((height + 1) * radixTreeMapShift) index) with
    | none => none
    | some child => lookupIn index height child

def radixTreeLookup (root : RadixTreeRoot α) (index : Nat) : Option α :=
  match root with
  | ⟨0, _⟩ => none
  | ⟨_ + 1, none⟩ => none
  | ⟨height + 1, some node⟩ =>
    if maxIndex (height + 1) < index then none else lookupIn index height node

/-- The loops of `radix_tree_delete`: the descent, and the way back that frees
nodes until it meets one still in use.  Returns the item and what remains of
the node, `none` when it was freed. -/
def deleteFrom (index : Nat) :
    (height : Nat) → RadixTreeNode (Subtree α height) →
      Option (α × Option (RadixTreeNode (Subtree α height)))
  | 0, node =>
    let offset := offsetAt 0 index
    match node.slots offset with
    | none => none
    | some item =>
      some (item, if 0 < node.count - 1 then
        some { count := node.count - 1, slots := update node.slots offset none }
      else none)
  | height + 1, node =>
    let offset := offsetAt ((height + 1) * radixTreeMapShift) index
    match node.slots offset with
    | none => none
    | some child =>
      match deleteFrom index height child with
      | none => none
      | some (item, some child) =>
        some (item, some { node with slots := update node.slots offset (some child) })
      | some (item, none) =>
        some (item, if 0 < node.count - 1 then
          some { count := node.count - 1, slots := update node.slots offset none }
        else none)

/-- `radix_tree_shrink` on a root with a node. -/
def shrinkNode : (height : Nat) → RadixTreeNode (Subtree α height) → RadixTreeRoot α
  | 0, node => ⟨1, some node⟩
  | height + 1, node =>
    if node.count = 1 then
      match node.slots 0 with
      | none => ⟨height + 2, some node⟩
      | some child => shrinkNode height child
    else ⟨height + 2, some node⟩

def radixTreeShrink : RadixTreeRoot α → RadixTreeRoot α
  | ⟨0, rnode⟩ => ⟨0, rnode⟩
  | ⟨_ + 1, none⟩ => ⟨0, none⟩
  | ⟨height + 1, some node⟩ => shrinkNode height node

def radixTreeDelete (root : RadixTreeRoot α) (index : Nat) : Option α × RadixTreeRoot α :=
  match root with
  | ⟨0, rnode⟩ => (none, ⟨0, rnode⟩)
  | ⟨height + 1, none⟩ => (none, ⟨height + 1, none⟩)
  | ⟨height + 1, some node⟩ =>
    if maxIndex (height + 1) < index then (none, ⟨height + 1, some node⟩)
    else
      match deleteFrom index height node with
      | none => (none, ⟨height + 1, some node⟩)
      | some (item, some node) => (some item, radixTreeShrink ⟨height + 1, some node⟩)
      | some (item, none) => (some item, radixTreeShrink ⟨0, none⟩)

end Rucix.Lib
