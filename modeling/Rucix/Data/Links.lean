import Mathlib.Data.List.Nodup

namespace Rucix.Data

open Function List

/-! Singly linked lists that share one link field, so that a node can be in one
list at a time.
-/

universe u v

variable {K : Type u} {ι : Type v}

/-- Following `next` from `head` visits `items` and arrives at `stop`. -/
def Linked (next : K → Option K) : (head : Option K) → List K → (stop : Option K) → Prop
  | head, [], stop => head = stop
  | head, item :: rest, stop => head = some item ∧ Linked next (next item) rest stop

instance Linked.decidable [DecidableEq K] (next : K → Option K) (head : Option K) (items : List K)
    (stop : Option K) : Decidable (Linked next head items stop) := by
  induction items generalizing head with
  | nil => exact inferInstanceAs (Decidable (head = stop))
  | cons item rest ih => exact @instDecidableAnd _ _ _ (ih (next item))

/-- Follow the links to the last node; `fuel` bounds the number of nodes. -/
def lastNode (next : K → Option K) : (fuel : Nat) → K → Option K
  | 0, _ => none
  | fuel + 1, node =>
    match next node with
    | none => some node
    | some following => lastNode next fuel following

namespace Linked

variable {next other : K → Option K} {head stop : Option K} {items left right before behind : List K}
  {item last new : K}

theorem append : Linked next head (left ++ right) stop ↔
    ∃ middle, Linked next head left middle ∧ Linked next middle right stop := by
  induction left generalizing head with
  | nil => simp [Linked]
  | cons first rest ih => simp only [cons_append, Linked, ih, and_assoc, exists_and_left]

theorem snoc : Linked next head (items ++ [item]) stop ↔
    Linked next head items (some item) ∧ next item = stop := by
  rw [append]
  constructor
  · rintro ⟨middle, before, rfl, last⟩
    exact ⟨before, last⟩
  · rintro ⟨before, last⟩
    exact ⟨some item, before, rfl, last⟩

/-- Only the links of the listed nodes matter. -/
theorem congr (linked : Linked next head items stop) (same : ∀ item ∈ items, other item = next item) :
    Linked other head items stop := by
  induction items generalizing head with
  | nil => exact linked
  | cons first rest ih =>
    refine ⟨linked.1, ?_⟩
    rw [same first mem_cons_self]
    exact ih linked.2 fun item member => same item (mem_cons_of_mem _ member)

theorem head_eq (linked : Linked next head items none) : head = items.head? := by
  cases items with
  | nil => exact linked
  | cons first rest => exact linked.1

/-- The list read from a head pointer is determined by it. -/
theorem unique (first : Linked next head left none) (second : Linked next head right none) : left = right := by
  induction left generalizing head right with
  | nil =>
    cases right with
    | nil => rfl
    | cons item rest =>
      have same := (show head = none from first).symm.trans second.1
      cases same
  | cons item rest ih =>
    cases right with
    | nil =>
      have same := (show head = none from second).symm.trans first.1
      cases same
    | cons item' rest' =>
      have same := first.1.symm.trans second.1
      cases same
      rw [ih first.2 second.2]

/-- A list that ends visits no node twice. -/
theorem nodup (linked : Linked next head items none) : items.Nodup := by
  induction items generalizing head with
  | nil => exact nodup_nil
  | cons item rest ih =>
    refine nodup_cons.mpr ⟨fun again => ?_, ih linked.2⟩
    obtain ⟨before, behind, split⟩ := append_of_mem again
    have tail := linked.2
    rw [split] at tail
    obtain ⟨middle, -, here⟩ := append.mp tail
    have same := congrArg List.length (unique linked.2 here.2)
    rw [split] at same
    simp only [length_append, length_cons] at same
    omega

theorem arrives (linked : Linked next head items none) (walk : Linked next head before (some item)) :
    item ∈ items := by
  induction before generalizing head items with
  | nil => exact mem_of_mem_head? (linked.head_eq.symm.trans walk)
  | cons first rest ih =>
    cases items with
    | nil => exact nomatch (show head = none from linked).symm.trans walk.1
    | cons first' rest' =>
      have same := linked.1.symm.trans walk.1
      cases same
      exact mem_cons_of_mem _ (ih linked.2 walk.2)

theorem next_eq (linked : Linked next head (before ++ item :: behind) none) : next item = behind.head? := by
  obtain ⟨middle, -, -, rest⟩ := append.mp linked
  exact rest.head_eq

/-- The last node after the first one is taken off. -/
theorem getLast?_pop [DecidableEq K] (linked : Linked next head (item :: behind) none) :
    (if next item = none then none else (item :: behind).getLast?) = behind.getLast? := by
  rw [linked.2.head_eq]
  cases behind with
  | nil => rfl
  | cons second others => simp [getLast?_cons_cons]

theorem lastNode_eq (linked : Linked next (some node) (items ++ [last]) none) :
    lastNode next fuel node = if items.length < fuel then some last else none := by
  induction items generalizing node fuel with
  | nil =>
    obtain ⟨same, stop⟩ := linked
    cases same
    have ended : next last = none := stop
    cases fuel with
    | zero => rfl
    | succ fuel => simp [lastNode, ended]
  | cons first rest ih =>
    obtain ⟨same, behind⟩ := linked
    cases same
    cases fuel with
    | zero => rfl
    | succ fuel =>
      obtain ⟨following, found⟩ : ∃ following, next first = some following := by
        cases rest with
        | nil => exact ⟨last, behind.1⟩
        | cons second others => exact ⟨second, behind.1⟩
      rw [found] at behind
      simp only [lastNode, found, ih behind, length_cons, Nat.add_lt_add_iff_right]

variable [DecidableEq K]

theorem update_outside (linked : Linked next head items stop) (outside : item ∉ items) (link : Option K) :
    Linked (update next item link) head items stop :=
  linked.congr fun _ member => update_of_ne (ne_of_mem_of_not_mem member outside) _ _

theorem insert (linked : Linked next head (before ++ last :: behind) stop) (nodup : (before ++ last :: behind).Nodup)
    (fresh : new ∉ before ++ last :: behind) :
    Linked (update (update next new (next last)) last (some new)) head
      (before ++ last :: new :: behind) stop := by
  obtain ⟨middle, front, rfl, rest⟩ := append.mp linked
  rw [mem_append, mem_cons, not_or, not_or] at fresh
  obtain ⟨notBefore, notLast, notBehind⟩ := fresh
  obtain ⟨-, inner, apart⟩ := nodup_append.mp nodup
  have outside : last ∉ before := fun member => apart last member last mem_cons_self rfl
  have lastBehind : last ∉ behind := (nodup_cons.mp inner).1
  refine append.mpr ⟨some last, ?_, rfl, ?_⟩
  · exact (front.update_outside notBefore _).update_outside outside _
  · rw [update_self]
    refine ⟨rfl, ?_⟩
    rw [update_of_ne notLast, update_self]
    exact (rest.update_outside notBehind _).update_outside lastBehind _

theorem skip (linked : Linked next head (before ++ last :: item :: behind) stop)
    (nodup : (before ++ last :: item :: behind).Nodup) :
    Linked (update next last (next item)) head (before ++ last :: behind) stop := by
  obtain ⟨middle, front, rfl, -, rest⟩ := append.mp linked
  obtain ⟨-, inner, apart⟩ := nodup_append.mp nodup
  have outside : last ∉ before := fun member => apart last member last mem_cons_self rfl
  have lastBehind : last ∉ behind := fun member =>
    (nodup_cons.mp inner).1 (mem_cons_of_mem _ member)
  refine append.mpr ⟨some last, front.update_outside outside _, rfl, ?_⟩
  rw [update_self]
  exact rest.update_outside lastBehind _

/-- A node behind the last one. -/
theorem push (linked : Linked next head (before ++ [last]) none) (fresh : new ∉ before ++ [last])
    (ends : next new = none) : Linked (update next last (some new)) head (before ++ [last] ++ [new]) none := by
  have inserted := linked.insert linked.nodup fresh
  rw [(snoc.mp linked).2.trans ends.symm, update_eq_self] at inserted
  rw [append_assoc]
  exact inserted

end Linked

/-- The last node after a node is taken out. -/
theorem getLast?_remove [DecidableEq K] {item : K} (nodup : (before ++ item :: behind).Nodup) :
    (if (before ++ item :: behind).getLast? = some item then before.getLast?
      else (before ++ item :: behind).getLast?) = (before ++ behind).getLast? := by
  rw [nodup_middle, nodup_cons] at nodup
  rcases eq_nil_or_concat behind with rfl | ⟨init, last, rfl⟩
  · simp
  · have different : last ≠ item := by
      rintro rfl
      exact nodup.1 (by simp)
    simp [getLast?_cons, different]

theorem mem_update_append [DecidableEq ι] {items : ι → List K} :
    other ∈ update items place (items place ++ [item]) elsewhere ↔
      other ∈ items elsewhere ∨ (elsewhere = place ∧ other = item) := by
  by_cases same : elsewhere = place
  · subst same
    simp
  · simp [same]

structure Lists (next : K → Option K) (head : ι → Option K) (items : ι → List K) : Prop where
  linked : ∀ place, Linked next (head place) (items place) none
  nodup : ∀ place, (items place).Nodup
  disjoint : ∀ place other item, item ∈ items place → item ∈ items other → place = other

namespace Lists

variable {next other : K → Option K} {head : ι → Option K} {items : ι → List K} {item last : K}
  {place : ι} {before behind rest : List K}

variable (lists : Lists next head items)
include lists

theorem congr (same : ∀ place, ∀ item ∈ items place, other item = next item) :
    Lists other head items :=
  ⟨fun place => (lists.linked place).congr (same place), lists.nodup, lists.disjoint⟩

theorem head_eq (place : ι) : head place = (items place).head? :=
  (lists.linked place).head_eq

theorem walk (shape : items place = nodes) : Linked next (head place) nodes none :=
  shape ▸ lists.linked place

theorem next_eq (shape : items place = before ++ item :: behind) :
    next item = behind.head? :=
  (lists.walk shape).next_eq

theorem ne_of_mem (apart : elsewhere ≠ place) (first : left ∈ items elsewhere)
    (second : right ∈ items place) : left ≠ right := by
  rintro rfl
  exact apart (lists.disjoint elsewhere place left first second)

variable [DecidableEq ι]

/-- One list is replaced, and the links of the others are untouched. -/
theorem replace (linked : Linked other pointer newItems none)
    (known : ∀ item ∈ newItems, item ∈ items place ∨ ∀ place, item ∉ items place)
    (same : ∀ elsewhere, elsewhere ≠ place → ∀ item ∈ items elsewhere, other item = next item) :
    Lists other (update head place pointer) (update items place newItems) := by
  have apart : ∀ elsewhere, elsewhere ≠ place → ∀ item ∈ newItems, item ∉ items elsewhere := by
    intro elsewhere different item member old
    rcases known item member with here | unlinked
    · exact different (lists.disjoint elsewhere place item old here)
    · exact unlinked elsewhere old
  refine ⟨fun target => ?_, fun target => ?_, fun target second item first again => ?_⟩
  · by_cases here : target = place
    · subst here
      rwa [update_self, update_self]
    · rw [update_of_ne here, update_of_ne here]
      exact (lists.linked target).congr (same target here)
  · by_cases here : target = place
    · subst here
      rw [update_self]
      exact linked.nodup
    · rw [update_of_ne here]
      exact lists.nodup target
  · by_cases here : target = place
    · by_cases there : second = place
      · rw [here, there]
      · subst here
        rw [update_self] at first
        rw [update_of_ne there] at again
        exact absurd again (apart second there item first)
    · rw [update_of_ne here] at first
      by_cases there : second = place
      · subst there
        rw [update_self] at again
        exact absurd first (apart target here item again)
      · rw [update_of_ne there] at again
        exact lists.disjoint target second item first again

theorem mem_remove (shape : items place = before ++ item :: behind) {elsewhere : ι}
    {other : K} :
    other ∈ update items place (before ++ behind) elsewhere ↔
      other ∈ items elsewhere ∧ other ≠ item := by
  have listed : item ∈ items place := by simp [shape]
  by_cases here : elsewhere = place
  · subst here
    have distinct := lists.nodup elsewhere
    rw [shape, nodup_middle, nodup_cons] at distinct
    rw [update_self, shape]
    constructor
    · intro member
      refine ⟨?_, ne_of_mem_of_not_mem member distinct.1⟩
      rw [mem_append] at member
      rw [mem_append, mem_cons]
      exact member.imp_right .inr
    · rintro ⟨member, different⟩
      rw [mem_append, mem_cons] at member
      rw [mem_append]
      exact member.imp_right fun late => late.resolve_left different
  · rw [update_of_ne here]
    exact ⟨fun member => ⟨member, lists.ne_of_mem here member listed⟩, And.left⟩

variable [DecidableEq K]

/-- A node is in one list only, so filtering every list changes that one. -/
theorem filter_ne (shape : items place = before ++ item :: behind) :
    (fun place => (items place).filter (· ≠ item)) =
      update items place (before ++ behind) := by
  have keeps : ∀ nodes : List K, item ∉ nodes → nodes.filter (· ≠ item) = nodes := by
    intro nodes absent
    refine filter_eq_self.mpr fun other member => ?_
    simpa using ne_of_mem_of_not_mem member absent
  funext elsewhere
  by_cases here : elsewhere = place
  · subst here
    have distinct := lists.nodup elsewhere
    rw [shape, nodup_middle, nodup_cons, mem_append, not_or] at distinct
    rw [update_self, shape, filter_append, filter_cons_of_neg (by simp),
      keeps before distinct.1.1, keeps behind distinct.1.2]
  · rw [update_of_ne here]
    refine keeps _ fun member => here (lists.disjoint elsewhere place item member ?_)
    simp [shape]

theorem single (unlinked : ∀ place, item ∉ items place) :
    Lists (update next item none) (update head place (some item))
      (update items place [item]) := by
  refine lists.replace ⟨rfl, update_self ..⟩ ?_ ?_
  · intro other member
    rw [mem_singleton.mp member]
    exact .inr unlinked
  · intro elsewhere _ other member
    exact update_of_ne (ne_of_mem_of_not_mem member (unlinked elsewhere)) _ _

theorem pushBack (shape : items place = before ++ [last])
    (unlinked : ∀ place, item ∉ items place) :
    Lists (update (update next item none) last (some item)) head
      (update items place (items place ++ [item])) := by
  have lastMember : last ∈ items place := by simp [shape]
  have fresh := unlinked place
  rw [← update_eq_self place head]
  refine lists.replace ?_ ?_ ?_
  · rw [shape] at fresh ⊢
    exact ((lists.walk shape).update_outside fresh none).push fresh (update_self ..)
  · intro other member
    rcases mem_append.mp member with old | new
    · exact .inl old
    · rw [mem_singleton.mp new]
      exact .inr unlinked
  · intro elsewhere apart other member
    have notItem := ne_of_mem_of_not_mem member (unlinked elsewhere)
    rw [update_of_ne (lists.ne_of_mem apart member lastMember),
      update_of_ne notItem]

theorem pop (shape : items place = item :: rest) (link : Option K) :
    Lists (update next item link) (update head place (next item))
      (update items place rest) := by
  have linked := lists.walk shape
  have outside := (nodup_cons.mp linked.nodup).1
  have member : item ∈ items place := by simp [shape]
  refine lists.replace (linked.2.update_outside outside link) ?_ ?_
  · intro other listed
    exact .inl (by rw [shape]; exact mem_cons_of_mem _ listed)
  · intro elsewhere apart other listed
    exact update_of_ne (lists.ne_of_mem apart listed member) _ _

theorem unlink (shape : items place = before ++ last :: item :: behind) :
    Lists (update next last (next item)) head
      (update items place (before ++ last :: behind)) := by
  have linked := lists.walk shape
  have member : last ∈ items place := by simp [shape]
  rw [← update_eq_self place head]
  refine lists.replace (linked.skip linked.nodup) ?_ ?_
  · intro other listed
    refine .inl ?_
    rw [shape]
    rcases mem_append.mp listed with early | late
    · exact mem_append_left _ early
    · rcases mem_cons.mp late with rfl | late
      · simp
      · simp [late]
  · intro elsewhere apart other listed
    exact update_of_ne (lists.ne_of_mem apart listed member) _ _

end Lists

end Rucix.Data
