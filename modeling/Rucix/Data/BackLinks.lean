import Rucix.Data.Links

namespace Rucix.Data

open Function List

/-! Lists whose nodes also know the link that points to them: the head of the list
or the link of the node before.
-/

universe u v

variable {K : Type u} {ι : Type v}

/-- A place that holds a pointer to a node. -/
inductive Link (ι : Type v) (K : Type u) where
  | head (place : ι)
  | next (item : K)
deriving DecidableEq, Repr

def Link.read (next : K → Option K) (head : ι → Option K) : Link ι K → Option K
  | .head place => head place
  | .next item => next item

/-- The links of the nodes and the heads after a write to a link. -/
def Link.writeNext [DecidableEq K] (next : K → Option K) (value : Option K) : Link ι K → K → Option K
  | .head _ => next
  | .next item => update next item value

def Link.writeHead [DecidableEq ι] (head : ι → Option K) (value : Option K) : Link ι K → ι → Option K
  | .head place => update head place value
  | .next _ => head

def Link.behind (link : Link ι K) (items : List K) : Link ι K :=
  items.getLast?.elim link .next

/-- Each node points back, the first one at `link`. -/
def BackLinked (back : K → Option (Link ι K)) : (link : Link ι K) → List K → Prop
  | _, [] => True
  | link, item :: rest => back item = some link ∧ BackLinked back (.next item) rest

namespace BackLinked

variable {back other : K → Option (Link ι K)} {link : Link ι K} {items left right : List K}

theorem congr (linked : BackLinked back link items) (same : ∀ item ∈ items, other item = back item) :
    BackLinked other link items := by
  induction items generalizing link with
  | nil => trivial
  | cons first rest ih =>
    refine ⟨(same first mem_cons_self).trans linked.1, ih linked.2 fun item member => ?_⟩
    exact same item (mem_cons_of_mem _ member)

theorem append : BackLinked back link (left ++ right) ↔
    BackLinked back link left ∧ BackLinked back (link.behind left) right := by
  induction left generalizing link with
  | nil => simp [BackLinked, Link.behind]
  | cons first rest ih =>
    have last : link.behind (first :: rest) = (Link.next first).behind rest := by
      cases rest with
      | nil => rfl
      | cons second rest => simp [Link.behind, getLast?_cons]
    rw [cons_append, BackLinked, BackLinked, ih, last, and_assoc]

end BackLinked

structure Chains (next : K → Option K) (head : ι → Option K) (back : K → Option (Link ι K))
    (items : ι → List K) : Prop extends Lists next head items where
  back : ∀ place, BackLinked back (.head place) (items place)

namespace Chains

variable {next next' : K → Option K} {head : ι → Option K} {back back' : K → Option (Link ι K)}
  {items : ι → List K} {item : K} {place : ι} {before behind : List K}

variable (chains : Chains next head back items)
include chains

theorem congr (sameNext : ∀ place, ∀ item ∈ items place, next' item = next item)
    (sameBack : ∀ place, ∀ item ∈ items place, back' item = back item) : Chains next' head back' items :=
  ⟨chains.toLists.congr sameNext, fun place => (chains.back place).congr (sameBack place)⟩

theorem back_eq (shape : items place = before ++ item :: behind) :
    back item = some ((Link.head place).behind before) := by
  have linked := chains.back place
  rw [shape] at linked
  exact (BackLinked.append.mp linked).2.1

theorem read_back (listed : item ∈ items place) :
    ∃ link, back item = some link ∧ link.read next head = some item := by
  obtain ⟨before, behind, shape⟩ := append_of_mem listed
  refine ⟨_, chains.back_eq shape, ?_⟩
  rcases eq_nil_or_concat before with rfl | ⟨early, last, rfl⟩
  · exact (chains.walk shape).1
  · have shape : items place = early ++ last :: item :: behind := by simpa using shape
    simpa [Link.behind, Link.read] using chains.next_eq shape

variable [DecidableEq ι] [DecidableEq K]

theorem pushFront (unlinked : ∀ place, item ∉ items place) (self : back' item = some (.head place))
    (first : ∀ other, head place = some other → back' other = some (.next item))
    (others : ∀ other, other ≠ item → head place ≠ some other → back' other = back other) :
    Chains (update next item (head place)) (update head place (some item)) back'
      (update items place (item :: items place)) := by
  have headEq := (chains.linked place).head_eq
  have linked : Linked (update next item (head place)) (some item) (item :: items place) none := by
    refine ⟨rfl, ?_⟩
    rw [update_self]
    exact (chains.linked place).update_outside (unlinked place) _
  refine ⟨chains.toLists.replace linked ?_ ?_, fun target => ?_⟩
  · intro other member
    rcases mem_cons.mp member with rfl | old
    · exact .inr unlinked
    · exact .inl old
  · intro elsewhere _ other member
    exact update_of_ne (ne_of_mem_of_not_mem member (unlinked elsewhere)) _ _
  · by_cases here : target = place
    · subst here
      rw [update_self]
      refine ⟨self, ?_⟩
      have old := chains.back target
      have distinct := chains.nodup target
      have fresh := unlinked target
      cases shape : items target with
      | nil => trivial
      | cons second rest =>
        rw [shape] at headEq old distinct fresh
        refine ⟨first second headEq, old.2.congr fun other member => ?_⟩
        refine others other (fun same => fresh (same ▸ mem_cons_of_mem _ member)) fun same => ?_
        cases headEq.symm.trans same
        exact (nodup_cons.mp distinct).1 member
    · rw [update_of_ne here]
      refine (chains.back target).congr fun other member => ?_
      refine others other (ne_of_mem_of_not_mem member (unlinked target)) fun same => ?_
      have listed : other ∈ items place := mem_of_mem_head? (headEq ▸ same)
      exact here (chains.disjoint target place other member listed)

theorem unlinkLists (shape : items place = before ++ item :: behind) :
    Lists (((Link.head place).behind before).writeNext next (next item))
      (((Link.head place).behind before).writeHead head (next item))
      (update items place (before ++ behind)) := by
  rcases eq_nil_or_concat before with rfl | ⟨early, last, rfl⟩
  · have popped := chains.toLists.pop shape (next item)
    rwa [update_eq_self] at popped
  · have shape : items place = early ++ last :: item :: behind := by simpa using shape
    have unlinked := chains.toLists.unlink shape
    simpa [Link.behind, Link.writeNext, Link.writeHead] using unlinked

theorem unlink (shape : items place = before ++ item :: behind) {link : Link ι K} (pointer : back item = some link)
    (first : ∀ other, next item = some other → back' other = back item)
    (others : ∀ other, next item ≠ some other → back' other = back other) :
    Chains (link.writeNext next (next item)) (link.writeHead head (next item)) back'
      (update items place (before ++ behind)) := by
  have nextEq := chains.next_eq shape
  have backEq := chains.back_eq shape
  cases pointer.symm.trans backEq
  refine ⟨chains.unlinkLists shape, fun target => ?_⟩
  have later : ∀ other, next item = some other → other ∈ behind := fun other same =>
    mem_of_mem_head? (nextEq ▸ same)
  have distinct := chains.nodup place
  have linked := chains.back place
  rw [shape] at distinct linked
  obtain ⟨earlyLinked, -, lateLinked⟩ := BackLinked.append.mp linked
  obtain ⟨-, lateDistinct, apart⟩ := nodup_append.mp distinct
  by_cases here : target = place
  · subst here
    rw [update_self]
    refine BackLinked.append.mpr ⟨earlyLinked.congr fun other member => ?_, ?_⟩
    · refine others other fun same => ?_
      exact apart other member other (mem_cons_of_mem _ (later other same)) rfl
    · cases behind with
      | nil => trivial
      | cons second rest =>
        refine ⟨(first second nextEq).trans backEq, lateLinked.2.congr fun other member => ?_⟩
        refine others other fun same => ?_
        cases nextEq.symm.trans same
        exact (nodup_cons.mp (nodup_cons.mp lateDistinct).2).1 member
  · rw [update_of_ne here]
    refine (chains.back target).congr fun other member => others other fun same => ?_
    have listed : other ∈ items place := by
      rw [shape]
      exact mem_append_right _ (mem_cons_of_mem _ (later other same))
    exact here (chains.disjoint target place other member listed)

end Chains

end Rucix.Data
