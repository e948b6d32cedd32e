import Rucix.Data.Links

namespace Rucix.Data

open Function List

/-! Circular doubly linked lists, `kernel/include/list.h`.

A list is a ring of nodes of which one is the head.  A node that was deleted has
two null pointers.
-/

universe u

variable {K : Type u}

structure ListHeads (K : Type u) where
  next : K → Option K
  prev : K → Option K

namespace ListHeads

variable [DecidableEq K]

/-- `INIT_LIST_HEAD` -/
def init (heads : ListHeads K) (node : K) : ListHeads K where
  next := update heads.next node (some node)
  prev := update heads.prev node (some node)

/-- `__list_add` -/
def add (heads : ListHeads K) (new prev next : K) : ListHeads K where
  next := update (update heads.next new (some next)) prev (some new)
  prev := update (update heads.prev next (some new)) new (some prev)

/-- `list_add_tail`; without a predecessor a null pointer is followed. -/
def addTail (heads : ListHeads K) (new head : K) : Option (ListHeads K) :=
  (heads.prev head).map fun last => heads.add new last head

/-- `list_del` -/
def del (heads : ListHeads K) (entry : K) : Option (ListHeads K) :=
  (heads.prev entry).bind fun prev => (heads.next entry).map fun next =>
    { next := update (update heads.next prev (some next)) entry none
      prev := update (update heads.prev next (some prev)) entry none }

end ListHeads

namespace Linked

variable {next : K → Option K} {head : Option K} {before behind : List K} {item node : K}

theorem head_eq_getD (linked : Linked next head items (some node)) : head = some (items.head?.getD node) := by
  cases items with
  | nil => exact linked
  | cons first rest => exact linked.1

theorem next_eq_getD (linked : Linked next head (before ++ item :: behind) (some node)) :
    next item = some (behind.head?.getD node) := by
  obtain ⟨middle, -, -, rest⟩ := append.mp linked
  exact rest.head_eq_getD

end Linked

structure Circular (heads : ListHeads K) (head : K) (items : List K) : Prop where
  forward : Linked heads.next (some head) (head :: items) (some head)
  backward : Linked heads.prev (some head) (head :: items.reverse) (some head)
  nodup : (head :: items).Nodup

namespace Circular

variable {heads other : ListHeads K} {head node new : K} {items left right : List K}

theorem congr (circular : Circular heads head items)
    (same : ∀ node ∈ head :: items, other.next node = heads.next node ∧ other.prev node = heads.prev node) :
    Circular other head items where
  forward := circular.forward.congr fun node member => (same node member).1
  backward := circular.backward.congr fun node member => (same node (by simpa using member)).2
  nodup := circular.nodup

theorem nil_iff : Circular heads head [] ↔ heads.next head = some head ∧ heads.prev head = some head :=
  ⟨fun circular => ⟨circular.forward.2, circular.backward.2⟩,
    fun self => ⟨⟨rfl, self.1⟩, ⟨rfl, self.2⟩, nodup_singleton head⟩⟩

/-- The same ring in the other direction. -/
theorem flip (circular : Circular heads head items) : Circular ⟨heads.prev, heads.next⟩ head items.reverse where
  forward := circular.backward
  backward := by simpa using circular.forward
  nodup := by simpa using circular.nodup

theorem next_head (circular : Circular heads head items) : heads.next head = some (items.head?.getD head) :=
  circular.forward.2.head_eq_getD

theorem next_item (circular : Circular heads head (left ++ node :: right)) :
    heads.next node = some (right.head?.getD head) := by
  have ring : Linked heads.next (some head) ((head :: left) ++ node :: right) (some head) := circular.forward
  exact ring.next_eq_getD

theorem prev_item (circular : Circular heads head (left ++ node :: right)) :
    heads.prev node = some (left.getLast?.getD head) := by
  have flipped := circular.flip
  rw [reverse_append, reverse_cons, append_assoc] at flipped
  rw [← head?_reverse]
  exact flipped.next_item

/-- The node in front of `right`. -/
theorem prev_place (circular : Circular heads head (left ++ right)) :
    heads.prev (right.head?.getD head) = some (left.getLast?.getD head) := by
  cases right with
  | nil =>
    rw [append_nil] at circular
    rw [← head?_reverse]
    exact circular.flip.next_head
  | cons first rest => exact circular.prev_item

/-- The last node of a part of the ring that starts with the head. -/
theorem exists_snoc : ∃ before, head :: left = before ++ [left.getLast?.getD head] := by
  rcases eq_nil_or_concat left with rfl | ⟨rest, last, rfl⟩
  · exact ⟨[], rfl⟩
  · exact ⟨head :: rest, by simp⟩

theorem place_mem : right.head?.getD head ∈ head :: (left ++ right) := by
  cases right with
  | nil => exact mem_cons_self
  | cons first rest => simp

theorem last_mem : left.getLast?.getD head ∈ head :: (left ++ right) := by
  obtain ⟨before, split⟩ := exists_snoc
  rw [← List.cons_append, split]
  simp

theorem nodup_middle : (head :: (left ++ node :: right)).Nodup ↔ (node :: head :: (left ++ right)).Nodup := by
  rw [← List.cons_append, List.nodup_middle, List.cons_append]

variable [DecidableEq K]

theorem forward_insert (circular : Circular heads head (left ++ right)) (fresh : new ∉ head :: (left ++ right)) :
    Linked (update (update heads.next new (some (right.head?.getD head)))
      (left.getLast?.getD head) (some new)) (some head) (head :: (left ++ new :: right)) (some head) := by
  obtain ⟨before, split⟩ := exists_snoc
  have shape : head :: (left ++ right) = before ++ left.getLast?.getD head :: right := by
    rw [← List.cons_append, split, append_assoc, singleton_append]
  have ring := circular.forward
  have nodup := circular.nodup
  rw [shape] at ring fresh nodup
  have inserted := ring.insert nodup fresh
  rw [ring.next_eq_getD] at inserted
  rw [← List.cons_append, split, append_assoc]
  exact inserted

/-- `list_add_tail` in front of the rest of the list, which may be empty. -/
theorem addTail (circular : Circular heads head (left ++ right)) (fresh : new ∉ head :: (left ++ right)) :
    ∃ after, heads.addTail new (right.head?.getD head) = some after ∧
      Circular after head (left ++ new :: right) ∧
      ∀ node, node ≠ new → node ∉ head :: (left ++ right) →
        after.next node = heads.next node ∧ after.prev node = heads.prev node := by
  refine ⟨heads.add new (left.getLast?.getD head) (right.head?.getD head), ?_, ⟨?_, ?_, ?_⟩, ?_⟩
  · rw [ListHeads.addTail, circular.prev_place]
    rfl
  · exact circular.forward_insert fresh
  · have flipped := circular.flip
    rw [reverse_append] at flipped
    have inserted := flipped.forward_insert (show new ∉ head :: (right.reverse ++ left.reverse) by
      simpa [and_comm] using fresh)
    rw [head?_reverse, getLast?_reverse] at inserted
    rw [reverse_append, reverse_cons, append_assoc]
    have apart : right.head?.getD head ≠ new := ne_of_mem_of_not_mem place_mem fresh
    rw [ListHeads.add, update_comm apart]
    exact inserted
  · exact nodup_middle.mpr (nodup_cons.mpr ⟨fresh, circular.nodup⟩)
  · intro node apart outside
    have notLast : node ≠ left.getLast?.getD head := (ne_of_mem_of_not_mem last_mem outside).symm
    have notPlace : node ≠ right.head?.getD head := (ne_of_mem_of_not_mem place_mem outside).symm
    exact ⟨(update_of_ne notLast _ _).trans (update_of_ne apart _ _),
      (update_of_ne apart _ _).trans (update_of_ne notPlace _ _)⟩

/-- `list_add` -/
theorem add_head (circular : Circular heads head items) (fresh : new ∉ head :: items) :
    Circular (heads.add new head (items.head?.getD head)) head (new :: items) := by
  obtain ⟨after, added, ring, -⟩ := @addTail _ heads head new [] items _ circular fresh
  rw [ListHeads.addTail, @prev_place _ heads head [] items circular] at added
  cases added
  exact ring

theorem forward_skip (circular : Circular heads head (left ++ node :: right)) :
    Linked (update (update heads.next (left.getLast?.getD head)
      (some (right.head?.getD head))) node none) (some head) (head :: (left ++ right)) (some head) := by
  obtain ⟨before, split⟩ := exists_snoc
  have shape : head :: (left ++ node :: right) = before ++ left.getLast?.getD head :: node :: right := by
    rw [← List.cons_append, split, append_assoc, singleton_append]
  have ring := circular.forward
  have nodup := circular.nodup
  have gone : node ∉ head :: (left ++ right) := (nodup_cons.mp (nodup_middle.mp nodup)).1
  rw [shape] at ring nodup
  have skipped := ring.skip nodup
  rw [circular.next_item, ← singleton_append, ← append_assoc, ← split] at skipped
  exact skipped.update_outside gone _

theorem del (circular : Circular heads head (left ++ node :: right)) :
    ∃ after, heads.del node = some after ∧ Circular after head (left ++ right) ∧
      after.next node = none ∧ after.prev node = none ∧
      ∀ other ∉ head :: (left ++ node :: right),
        after.next other = heads.next other ∧ after.prev other = heads.prev other := by
  have nodup := nodup_middle.mp circular.nodup
  refine ⟨_, by rw [ListHeads.del, circular.prev_item, circular.next_item]; rfl,
    ⟨circular.forward_skip, ?_, (nodup_cons.mp nodup).2⟩,
    update_self .., update_self .., ?_⟩
  · have flipped := circular.flip
    rw [reverse_append, reverse_cons, append_assoc, singleton_append] at flipped
    have skipped := flipped.forward_skip
    rw [head?_reverse, getLast?_reverse, ← reverse_append] at skipped
    exact skipped
  · intro other outside
    have around : ∀ member ∈ head :: (left ++ right), other ≠ member := by
      intro member inside same
      subst same
      apply outside
      simp only [mem_cons, mem_append] at inside ⊢
      tauto
    have apart : other ≠ node := by
      rintro rfl
      exact outside (by simp)
    exact ⟨(update_of_ne apart _ _).trans (update_of_ne (around _ last_mem) _ _),
      (update_of_ne apart _ _).trans (update_of_ne (around _ place_mem) _ _)⟩

end Circular

end Rucix.Data
