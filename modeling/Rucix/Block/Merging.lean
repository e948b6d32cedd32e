import Rucix.Block.Completion
import Rucix.Data.Run

namespace Rucix.Block

open Rucix.Data List

/-! The effect of merged requests.

A merge looks at sectors only, but the driver transfers a request in one direction
to or from one piece of memory.
-/

variable {request : Request} {bio : Bio} {bios : List Bio}

def runQueue (queue : List Request) (store : Store) : Store := runMoves (queue.map Request.move) store

def runBios (bios : List Bio) (store : Store) : Store := runMoves (bios.flatMap Bio.moves) store

/-- The queue does what the bios do, and no request has a bio of the other direction. -/
structure Faithful (queue : List Request) (bios : List Bio) : Prop where
  effect : ∀ store, runQueue queue store = runBios bios store
  directions : ∀ request ∈ queue, ∀ bio ∈ request.bio, (bio.rw = write ↔ request.flags = write)

/-- The request made of the bio copies what its vectors copy. -/
def Bio.Plain (bio : Bio) : Prop := ∀ store, runMoves bio.moves store = bio.request.move.run store

/-- Copies of which neither changes what the other reads or writes. -/
structure Independent (first second : Move) : Prop where
  memory : (first.toDisk = true ∧ second.toDisk = true) ∨
    first.buffer + first.len ≤ second.buffer ∨ second.buffer + second.len ≤ first.buffer
  disk : (first.toDisk = false ∧ second.toDisk = false) ∨
    first.position + first.len ≤ second.position ∨ second.position + second.len ≤ first.position

theorem Store.ext_iff_fields {left right : Store} (disk : ∀ place, left.disk place = right.disk place)
    (memory : ∀ place, left.memory place = right.memory place) : left = right := by
  cases left
  congr 1
  · exact funext disk
  · exact funext memory

theorem Move.disk_run (move : Move) (store : Store) : (move.run store).disk place =
    if move.toDisk = true ∧ move.position ≤ place ∧ place < move.position + move.len then
      store.memory (move.buffer + (place - move.position)) else store.disk place := by
  cases kind : move.toDisk <;> simp [Move.run, kind]

theorem Move.memory_run (move : Move) (store : Store) : (move.run store).memory place =
    if move.toDisk = false ∧ move.buffer ≤ place ∧ place < move.buffer + move.len then
      store.disk (move.position + (place - move.buffer)) else store.memory place := by
  cases kind : move.toDisk <;> simp [Move.run, kind]

theorem Independent.commute (independent : Independent first second) (store : Store) :
    first.run (second.run store) = second.run (first.run store) := by
  obtain ⟨memory, disk⟩ := independent
  apply Store.ext_iff_fields
  · simp only [Move.disk_run, Move.memory_run]
    grind
  · simp only [Move.disk_run, Move.memory_run]
    grind

theorem runMoves_commute (independent : ∀ move ∈ moves, Independent first move) (store : Store) :
    runMoves moves (first.run store) = first.run (runMoves moves store) := by
  induction moves generalizing store with
  | nil => rfl
  | cons move rest ih =>
    have here := independent move mem_cons_self
    have later := ih fun other member => independent other (mem_cons_of_mem _ member)
    calc runMoves (move :: rest) (first.run store)
        = runMoves rest (move.run (first.run store)) := rfl
      _ = runMoves rest (first.run (move.run store)) := by rw [here.commute]
      _ = first.run (runMoves rest (move.run store)) := later _

theorem Move.run_append (toDisk : Bool) (position buffer len more : Nat) (store : Store) :
    (Move.mk toDisk position buffer (len + more)).run store =
      (Move.mk toDisk (position + len) (buffer + len) more).run
        ((Move.mk toDisk position buffer len).run store) := by
  apply Store.ext_iff_fields
  · simp only [Move.disk_run, Move.memory_run]
    grind
  · simp only [Move.disk_run, Move.memory_run]
    grind

theorem runMoves_append (store : Store) :
    runMoves (left ++ right) store = runMoves right (runMoves left store) :=
  foldl_append

theorem runBios_snoc (plain : bio.Plain) (store : Store) :
    runBios (bios ++ [bio]) store = bio.request.move.run (runBios bios store) := by
  rw [runBios, flatMap_append, runMoves_append, flatMap_singleton]
  exact plain _

def Adjacent (request : Request) (bio : Bio) : Prop :=
  (request.sector + request.nrSectors) % 2 ^ 64 = bio.sector

/-- The sector numbers and lengths of a merge do not wrap. -/
structure Fits (request : Request) (bio : Bio) : Prop where
  sectors : request.sector + request.nrSectors < 2 ^ 64
  total : request.nrSectors + bio.size / 512 < 2 ^ 32

/-- The bio continues the request in its direction and in memory. -/
structure Joins (request : Request) (bio : Bio) : Prop where
  fits : Fits request bio
  direction : bio.rw = write ↔ request.flags = write
  contiguous : bio.size / 512 = 0 ∨ request.buffer + request.nrSectors * 512 = bio.request.buffer

/-- The bio joins a request, or becomes one of its own, and does not interfere with the
requests behind that one. -/
structure Orderly (elevator : Elevator) (queue : List Request) (bio : Bio) : Prop where
  plain : bio.Plain
  merged : ∀ ahead request behind, queue = ahead ++ request :: behind →
    (∀ other ∈ ahead, ¬Adjacent other bio) → Adjacent request bio →
    Joins request bio ∧ ∀ other ∈ behind, Independent bio.request.move other.move
  appended : (∀ request ∈ queue, ¬Adjacent request bio) →
    elevator = .noop ∨ ∀ other ∈ queue.dropWhile (·.sector ≤ bio.sector), Independent bio.request.move other.move

theorem mergeFirst_eq_some {after : List Request} (joined : mergeFirst mergeReq bio queue = some after) :
    ∃ ahead request behind merged, queue = ahead ++ request :: behind ∧
      (∀ other ∈ ahead, ¬Adjacent other bio) ∧ Adjacent request bio ∧
      mergeReq request bio = some merged ∧ after = ahead ++ merged :: behind := by
  induction queue generalizing after with
  | nil => cases joined
  | cons request rest ih =>
    cases here : mergeReq request bio with
    | some merged =>
      simp only [mergeFirst, here, Option.some.injEq] at joined
      have adjacent : Adjacent request bio := by
        by_contra apart
        cases (mergeReq_eq_none.mpr apart).symm.trans here
      exact ⟨[], request, rest, merged, rfl, by simp, adjacent, here, joined.symm⟩
    | none =>
      simp only [mergeFirst, here, Option.map_eq_some_iff] at joined
      obtain ⟨tail, found, rfl⟩ := joined
      obtain ⟨ahead, target, behind, merged, rfl, apart, adjacent, took, rfl⟩ := ih found
      refine ⟨request :: ahead, target, behind, merged, rfl, ?_, adjacent, took, rfl⟩
      intro other member
      rcases mem_cons.mp member with same | further
      · rw [same]
        exact mergeReq_eq_none.mp here
      · exact apart other further

theorem Adjacent.merge (adjacent : Adjacent request bio) :
    mergeReq request bio = some { request with
      bio := request.bio ++ [bio], nrSectors := (request.nrSectors + bio.size / 2 ^ 9) % 2 ^ 32 } := by
  exact if_pos adjacent

def Request.extension (request : Request) (bio : Bio) : Move :=
  ⟨request.flags = write, bio.sector * 512, request.buffer + request.nrSectors * 512, bio.size / 512 * 512⟩

theorem Fits.run_merged (fits : Fits request bio) (adjacent : Adjacent request bio)
    (joined : mergeReq request bio = some merged) (store : Store) :
    merged.move.run store = (request.extension bio).run (request.move.run store) := by
  cases adjacent.merge.symm.trans joined
  have sectors : (request.nrSectors + bio.size / 2 ^ 9) % 2 ^ 32 = request.nrSectors + bio.size / 512 :=
    Nat.mod_eq_of_lt fits.total
  have start : request.sector + request.nrSectors = bio.sector := by
    rw [← adjacent, Nat.mod_eq_of_lt fits.sectors]
  simp only [Request.move, Request.extension, sectors, ← start, Nat.add_mul]
  exact Move.run_append ..

theorem Move.run_nothing {move : Move} (empty : move.len = 0) (store : Store) : move.run store = store := by
  apply Store.ext_iff_fields
  · intro place
    rw [Move.disk_run, if_neg (by omega)]
  · intro place
    rw [Move.memory_run, if_neg (by omega)]

theorem Joins.extension (joins : Joins request bio) (store : Store) :
    (request.extension bio).run store = bio.request.move.run store := by
  rcases joins.contiguous with empty | contiguous
  · rw [Move.run_nothing (by simp [Request.extension, empty]),
      Move.run_nothing (by simp [Request.move, Bio.request, empty])]
  · simp only [Request.extension, Request.move, contiguous]
    simp only [Bio.request, joins.direction]

theorem runQueue_append (store : Store) :
    runQueue (left ++ right) store = runQueue right (runQueue left store) := by
  rw [runQueue, map_append, runMoves_append]
  rfl

theorem insertSorted_eq : insertSorted request queue = queue.takeWhile (·.sector ≤ request.sector) ++
    request :: queue.dropWhile (·.sector ≤ request.sector) := by
  induction queue with
  | nil => rfl
  | cons current rest ih =>
    by_cases earlier : request.sector < current.sector
    · simp [insertSorted, earlier]
    · simp [insertSorted, earlier, ih, Nat.le_of_not_lt earlier]

theorem Faithful.snoc {after : List Request} (faithful : Faithful queue bios) (plain : bio.Plain)
    (effect : ∀ store, runQueue after store = bio.request.move.run (runQueue queue store))
    (directions : ∀ request ∈ after, ∀ bio ∈ request.bio, (bio.rw = write ↔ request.flags = write)) :
    Faithful after (bios ++ [bio]) :=
  ⟨fun store => by rw [effect, faithful.effect, runBios_snoc plain], directions⟩

theorem directions_merged (ahead : List Request)
    (directions : ∀ other ∈ ahead ++ request :: behind, ∀ chained ∈ other.bio,
      (chained.rw = write ↔ other.flags = write)) (direction : bio.rw = write ↔ request.flags = write) :
    ∀ other ∈ ahead ++ { request with bio := request.bio ++ [bio], nrSectors := sectors } :: behind,
      ∀ chained ∈ other.bio, (chained.rw = write ↔ other.flags = write) := by
  intro other member chained listed
  rcases mem_append.mp member with early | late
  · exact directions other (mem_append_left _ early) chained listed
  · rcases mem_cons.mp late with same | further
    · subst same
      rcases mem_append.mp listed with old | new
      · exact directions request (mem_append_right _ mem_cons_self) chained old
      · rw [mem_singleton.mp new]
        exact direction
    · exact directions other (mem_append_right _ (mem_cons_of_mem _ further)) chained listed

/-- A transfer moves behind those of the later requests. -/
theorem runQueue_commute (independent : ∀ other ∈ behind, Independent bio.request.move other.move) (store : Store) :
    runQueue behind (bio.request.move.run store) = bio.request.move.run (runQueue behind store) := by
  refine runMoves_commute (fun move member => ?_) store
  obtain ⟨other, listed, rfl⟩ := mem_map.mp member
  exact independent other listed

theorem Joins.runQueue_merged (joins : Joins request bio) (adjacent : Adjacent request bio)
    (took : mergeReq request bio = some merged)
    (independent : ∀ other ∈ behind, Independent bio.request.move other.move) (store : Store) :
    runQueue (ahead ++ merged :: behind) store =
      bio.request.move.run (runQueue (ahead ++ request :: behind) store) := by
  calc runQueue (ahead ++ merged :: behind) store
      = runQueue behind (merged.move.run (runQueue ahead store)) := runQueue_append ..
    _ = runQueue behind (bio.request.move.run (request.move.run (runQueue ahead store))) := by
        rw [joins.fits.run_merged adjacent took, joins.extension]
    _ = bio.request.move.run (runQueue behind (request.move.run (runQueue ahead store))) :=
        runQueue_commute independent _
    _ = bio.request.move.run (runQueue (ahead ++ request :: behind) store) := by
        rw [runQueue_append]
        rfl

/-- The new request has the requests ahead of it and behind it that were there before, and
does not interfere with the latter. -/
theorem Orderly.makeRequest_added (orderly : Orderly elevator q.queue bio) (installed : q.elevator = some elevator)
    (joined : mergeFirst mergeReq bio q.queue = none) : ∃ ahead behind, q.queue = ahead ++ behind ∧
      (makeRequest q bio true).1.queue = ahead ++ bio.request :: behind ∧
      ∀ other ∈ behind, Independent bio.request.move other.move := by
  have apart : ∀ request ∈ q.queue, ¬Adjacent request bio := by
    intro request member
    exact mergeReq_eq_none.mp (mergeFirst_eq_none.mp joined request member)
  have added : (makeRequest q bio true).1.queue = elevator.addReqFn false bio.request q.queue := by
    simp [makeRequest, elvMergeBio, elvAddRequest, installed, elevator.mergeFn_eq, joined]
  rw [added]
  cases elevator with
  | noop => exact ⟨q.queue, [], (append_nil _).symm, rfl, fun _ member => absurd member not_mem_nil⟩
  | deadline =>
    rcases orderly.appended apart with noop | independent
    · cases noop
    · exact ⟨_, _, takeWhile_append_dropWhile.symm, insertSorted_eq, independent⟩

theorem Orderly.faithful (orderly : Orderly elevator q.queue bio) (installed : q.elevator = some elevator)
    (faithful : Faithful q.queue bios) : Faithful (makeRequest q bio true).1.queue (bios ++ [bio]) := by
  cases joined : mergeFirst mergeReq bio q.queue with
  | some after =>
    have made : (makeRequest q bio true).1.queue = after := by
      simp [makeRequest, elvMergeBio, installed, elevator.mergeFn_eq, joined]
    obtain ⟨ahead, request, behind, merged, split, apart, adjacent, took, rfl⟩ := mergeFirst_eq_some joined
    obtain ⟨joins, independent⟩ := orderly.merged ahead request behind split apart adjacent
    have directions := faithful.directions
    rw [split] at directions
    rw [made]
    refine faithful.snoc orderly.plain (fun store => ?_) ?_
    · rw [split]
      exact joins.runQueue_merged adjacent took independent store
    · cases adjacent.merge.symm.trans took
      exact directions_merged ahead directions joins.direction
  | none =>
    obtain ⟨ahead, behind, split, added, independent⟩ := orderly.makeRequest_added installed joined
    rw [added]
    refine faithful.snoc orderly.plain (fun store => ?_) ?_
    · rw [split, runQueue_append, runQueue_append]
      exact runQueue_commute independent _
    · intro other member chained listed
      rcases perm_middle.mem_iff.mp member with _ | ⟨_, old⟩
      · cases mem_singleton.mp listed
        exact Iff.rfl
      · exact faithful.directions other (split ▸ old) chained listed

theorem Faithful.empty : Faithful [] [] := ⟨fun _ => rfl, fun _ member => nomatch member⟩

end Rucix.Block
