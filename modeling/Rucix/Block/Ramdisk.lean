import Rucix.Block.Model

namespace Rucix.Block

open List

/-! The bounds of a ramdisk. -/

variable {capacity : Nat} {bio : Bio} {store : Store}

def ramdiskMoves (capacity : Nat) (bio : Bio) : List Move :=
  if capacity * 512 % 2 ^ 64 < (bio.sector * 512 % 2 ^ 64 + bio.size) % 2 ^ 64 then []
  else vecMoves (bio.rw = write) (bio.sector * 512 % 2 ^ 64) bio.ioVec

theorem ramdiskMakeRequest_eq :
    ramdiskMakeRequest capacity bio store = runMoves (ramdiskMoves capacity bio) store := by
  unfold ramdiskMakeRequest ramdiskMoves
  dsimp only
  split <;> rfl

/-- A request that copies data is one for bytes of the disk and copies those; any
other leaves disk and memory as they are. -/
def StaysOnDisk (capacity : Nat) (bio : Bio) : Prop :=
  ((∃ move ∈ ramdiskMoves capacity bio, move.len ≠ 0) →
      bio.sector * 512 + bio.size ≤ capacity * 512 ∧ ramdiskMoves capacity bio = bio.moves) ∧
    ((∀ move ∈ ramdiskMoves capacity bio, move.len = 0) → ∀ store, ramdiskMakeRequest capacity bio store = store)

theorem Move.run_of_empty {move : Move} (empty : move.len = 0) (store : Store) : move.run store = store := by
  have nowhere : ∀ start place, ¬(start ≤ place ∧ place < start + move.len) := by
    omega
  simp only [Move.run, if_neg (nowhere _ _), ite_self]

theorem runMoves_of_empty (empty : ∀ move ∈ moves, Move.len move = 0) :
    runMoves moves store = store := by
  induction moves with
  | nil => rfl
  | cons move rest ih =>
    rw [runMoves, foldl_cons, move.run_of_empty (empty move mem_cons_self)]
    exact ih fun other listed => empty other (mem_cons_of_mem _ listed)

theorem vecMoves_empty_iff :
    (∀ move ∈ vecMoves toDisk position vecs, move.len = 0) ↔ (vecs.map (·.len)).sum = 0 := by
  induction vecs generalizing position with
  | nil => simp [vecMoves]
  | cons vec rest ih => simp [vecMoves, ih]

/-- A request stays on the disk exactly if it is empty or refused, or its end does
not wrap. -/
theorem ramdisk_stays_iff (fits : capacity * 512 < 2 ^ 64) (sum : (bio.ioVec.map (·.len)).sum = bio.size) :
    StaysOnDisk capacity bio ↔ bio.size = 0 ∨ capacity * 512 < (bio.sector * 512 + bio.size) % 2 ^ 64 ∨
      bio.sector * 512 + bio.size < 2 ^ 64 := by
  have quiet : (∀ move ∈ ramdiskMoves capacity bio, move.len = 0) → ∀ store,
      ramdiskMakeRequest capacity bio store = store := by
    intro empty store
    rw [ramdiskMakeRequest_eq, runMoves_of_empty empty]
  by_cases refused : capacity * 512 < (bio.sector * 512 + bio.size) % 2 ^ 64
  · have none : ramdiskMoves capacity bio = [] := by
      rw [ramdiskMoves, Nat.mod_eq_of_lt fits, Nat.mod_add_mod, if_pos refused]
    refine ⟨fun _ => .inr (.inl refused), fun _ => ⟨fun ⟨move, listed, _⟩ => ?_, quiet⟩⟩
    rw [none] at listed
    cases listed
  · have served : ramdiskMoves capacity bio = vecMoves (bio.rw = write) (bio.sector * 512 % 2 ^ 64) bio.ioVec := by
      rw [ramdiskMoves, Nat.mod_eq_of_lt fits, Nat.mod_add_mod, if_neg refused]
    have copies : (∃ move ∈ ramdiskMoves capacity bio, move.len ≠ 0) ↔ bio.size ≠ 0 := by
      rw [← sum, Ne, ← vecMoves_empty_iff, ← served]
      simp
    rw [StaysOnDisk, copies]
    refine ⟨fun stays => ?_, fun small => ⟨fun some => ?_, quiet⟩⟩
    · by_cases empty : bio.size = 0
      · exact .inl empty
      · exact .inr (.inr (Nat.lt_of_le_of_lt (stays.1 empty).1 fits))
    · have exact : bio.sector * 512 + bio.size < 2 ^ 64 := by
        rcases small with empty | beyond | less
        · exact absurd empty some
        · exact absurd beyond refused
        · exact less
      have start : bio.sector * 512 < 2 ^ 64 := Nat.lt_of_le_of_lt (Nat.le_add_right ..) exact
      rw [Nat.mod_eq_of_lt exact] at refused
      rw [Nat.mod_eq_of_lt start] at served
      exact ⟨Nat.le_of_not_lt refused, served⟩

/-- The ramdisk of one MiB. -/
theorem ramdisk_stays_iff_mebibyte :
    StaysOnDisk 2048 ⟨0, 2047, 512, [⟨4096, 512, 0⟩], read, 0⟩ :=
  (ramdisk_stays_iff (by decide) (by decide)).mpr (.inr (.inr (by decide)))

/-- The end of a request for sector 2^55 - 1 wraps around, and the copy begins 512
bytes before the disk.  Sector 2^55 is taken for the first one. -/
theorem wrapped_request_served :
    ramdiskMoves 2048 ⟨0, 2 ^ 55 - 1, 1024, [⟨4096, 1024, 0⟩], read, 0⟩ = [⟨false, 2 ^ 64 - 512, 4096, 1024⟩] ∧
    ramdiskMoves 2048 ⟨0, 2 ^ 55, 512, [⟨4096, 512, 0⟩], write, 0⟩ = [⟨true, 0, 4096, 512⟩] := by
  decide

end Rucix.Block
