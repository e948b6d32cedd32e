import Mathlib.Data.Finset.Card

namespace Rucix.Data

open Function

/-! Counting the slots that refer to a target. -/

variable {K V : Type*} [DecidableEq V] {keys : Finset K} {slot : K → Option V}
  {key : K} {value : V}

def references (keys : Finset K) (slot : K → Option V) (target : V) : Nat :=
  (keys.filter fun key => slot key = some target).card

theorem references_eq_zero : references keys slot target = 0 ↔ ∀ key ∈ keys, slot key ≠ some target := by
  rw [references, Finset.card_eq_zero, Finset.filter_eq_empty_iff]

theorem references_pos (member : key ∈ keys) (stored : slot key = some value) : 0 < references keys slot value :=
  Finset.card_pos.mpr ⟨key, Finset.mem_filter.mpr ⟨member, stored⟩⟩

variable [DecidableEq K]

theorem references_fill (member : key ∈ keys) (vacant : slot key = none) (value target : V) :
    references keys (update slot key (some value)) target =
      references keys slot target + if target = value then 1 else 0 := by
  have same : ∀ other, other ≠ key →
      (update slot key (some value) other = some target ↔ slot other = some target) := by
    intro other different
    rw [update_of_ne different]
  split
  · rename_i hit
    subst hit
    have absent : key ∉ keys.filter fun key => slot key = some target := by simp [vacant]
    rw [references, references, ← Finset.card_insert_of_notMem absent]
    congr 1
    ext other
    by_cases here : other = key
    · simp [here, member]
    · simp [here]
  · rename_i miss
    rw [references]
    congr 1
    ext other
    by_cases here : other = key
    · simp [here, vacant, Ne.symm miss]
    · simp [same other here]

theorem references_clear (member : key ∈ keys) (stored : slot key = some value) :
    references keys (update slot key none) target + (if target = value then 1 else 0) =
      references keys slot target := by
  have vacant : update slot key none key = none := update_self ..
  have refilled := references_fill member vacant value target
  rw [update_idem, ← stored, update_eq_self] at refilled
  exact refilled.symm

theorem card_filter_insert [DecidablePred p] (fresh : key ∉ keys) :
    ((insert key keys).filter p).card = (keys.filter p).card + if p key then 1 else 0 := by
  rw [Finset.filter_insert]
  split
  · rw [Finset.card_insert_of_notMem fun member => fresh (Finset.mem_filter.mp member).1]
  · rfl

theorem card_filter_erase [DecidablePred p] (member : key ∈ keys) :
    ((keys.erase key).filter p).card + (if p key then 1 else 0) = (keys.filter p).card := by
  have restored := card_filter_insert (p := p) (Finset.notMem_erase key keys)
  rw [Finset.insert_erase member] at restored
  exact restored.symm

/-- Empty slots refer to nothing, so they may be added. -/
theorem references_extend (included : keys ⊆ more) (same : ∀ key ∈ keys, other key = slot key)
    (empty : ∀ key ∈ more, key ∉ keys → other key = none) :
    references more other target = references keys slot target := by
  rw [references]
  congr 1
  ext key
  simp only [Finset.mem_filter]
  constructor
  · rintro ⟨member, stored⟩
    by_cases old : key ∈ keys
    · exact ⟨old, by rw [← same key old, stored]⟩
    · rw [empty key member old] at stored
      cases stored
  · rintro ⟨member, stored⟩
    exact ⟨included member, by rw [same key member, stored]⟩

end Rucix.Data
