import Mathlib.Algebra.Order.BigOperators.Group.List
import Rucix.Block.Merging
import Rucix.Data.Links

namespace Rucix.Block

open Rucix.Data Function List

/-! The queue of an elevator with its bios in memory: a request points to its first
bio and every bio to the next one.
-/

structure ChainedRequest where
  sector : Nat
  nrSectors : Nat
  buffer : Nat
  bio : Option Nat
  flags : Nat
deriving DecidableEq

/-- `bios` and `next` give the fields of the bio at an address. -/
structure ChainedQueue where
  elevator : Elevator
  queue : List ChainedRequest
  bios : Nat → Bio
  next : Nat → Option Nat

/-- `while (b->next) b = b->next;` -/
def lastBio (next : Nat → Option Nat) : (fuel b : Nat) → Option Nat
  | 0, _ => none
  | fuel + 1, b =>
    match next b with
    | none => some b
    | some following => lastBio next fuel following

/-- The first bio of a request and the links after a bio was put behind the last one. -/
def appendBio (fuel : Nat) (next : Nat → Option Nat) (first : Option Nat) (addr : Nat) :
    Option (Option Nat × (Nat → Option Nat)) :=
  match first with
  | some b => (lastBio next fuel b).map fun last => (some b, update next last (some addr))
  | none => some (some addr, next)

def ChainedRequest.endSector (request : ChainedRequest) : Nat :=
  (request.sector + request.nrSectors) % 2 ^ 64

def ChainedRequest.grown (request : ChainedRequest) (bio : Bio) : ChainedRequest :=
  { request with nrSectors := (request.nrSectors + bio.size / 2 ^ 9) % 2 ^ 32 }

def insertChained (request : ChainedRequest) : List ChainedRequest → List ChainedRequest
  | [] => [request]
  | current :: rest =>
    if request.sector < current.sector then request :: current :: rest
    else current :: insertChained request rest

/-- The `elevator_add_req_fn` for `ELEVATOR_INSERT_BACK`. -/
def Elevator.addChained : Elevator → ChainedRequest → List ChainedRequest → List ChainedRequest
  | .noop, request, queue => queue ++ [request]
  | .deadline, request, queue => insertChained request queue

namespace ChainedQueue

def empty (elevator : Elevator) (bios : Nat → Bio) (next : Nat → Option Nat) : ChainedQueue :=
  { elevator, queue := [], bios, next }

/-- The merge functions of both elevators. -/
def mergeReq (fuel : Nat) (state : ChainedQueue) (addr : Nat) (request : ChainedRequest) :
    Option (Option (ChainedRequest × (Nat → Option Nat))) :=
  if request.endSector = (state.bios addr).sector then
    (appendBio fuel state.next request.bio addr).map fun (first, next) =>
      some ({ request.grown (state.bios addr) with bio := first }, next)
  else some none

/-- The loop of `elv_merge_bio`. -/
def mergeFirst (fuel : Nat) (state : ChainedQueue) (addr : Nat) :
    List ChainedRequest → Option (Option (List ChainedRequest × (Nat → Option Nat)))
  | [] => some none
  | request :: rest =>
    match state.mergeReq fuel addr request with
    | none => none
    | some (some (merged, next)) => some (some (merged :: rest, next))
    | some none =>
      (state.mergeFirst fuel addr rest).map (Option.map fun (tail, next) => (request :: tail, next))

def elvNextRequest (state : ChainedQueue) : Option ChainedRequest := state.queue.head?

def newRequest (state : ChainedQueue) (addr : Nat) : ChainedRequest where
  sector := (state.bios addr).sector
  nrSectors := (state.bios addr).size / 512
  buffer := ((state.bios addr).ioVec.head?.map (·.page)).getD 0
  bio := some addr
  flags := (state.bios addr).rw

/-- `__make_request` under the queue lock; the second component says whether
`end_io` is called. -/
def makeRequest (fuel : Nat) (state : ChainedQueue) (addr : Nat) (alloc : Bool) :
    Option (ChainedQueue × Bool) :=
  match state.mergeFirst fuel addr state.queue with
  | none => none
  | some (some (queue, next)) => some ({ state with queue, next }, false)
  | some none =>
    if alloc then
      some ({ state with queue := state.elevator.addChained (state.newRequest addr) state.queue }, false)
    else some (state, true)

end ChainedQueue

abbrev ChainedEntry := ChainedRequest × List Nat

def ChainedEntry.request (bios : Nat → Bio) (entry : ChainedEntry) : Request where
  sector := entry.1.sector
  nrSectors := entry.1.nrSectors
  buffer := entry.1.buffer
  bio := entry.2.map bios
  flags := entry.1.flags

/-- Every request has a chain, and no bio is in two of them. -/
structure ChainedQueue.Chains (state : ChainedQueue) (entries : List ChainedEntry) : Prop where
  queue : state.queue = entries.map Prod.fst
  linked : ∀ entry ∈ entries, Linked state.next entry.1.bio entry.2 none
  nonempty : ∀ entry ∈ entries, entry.2 ≠ []
  distinct : (entries.flatMap Prod.snd).Nodup

def ChainedQueue.listed (state : ChainedQueue) (entries : List ChainedEntry) : RequestQueue where
  elevator := some state.elevator
  queue := entries.map (ChainedEntry.request state.bios)
  makeRequestFn := some .elevator

variable {next : Nat → Option Nat} {fuel addr last : Nat} {before : List Nat}

theorem lastBio_eq (linked : Linked next (some b) (before ++ [last]) none) :
    lastBio next fuel b = if before.length < fuel then some last else none := by
  induction before generalizing b fuel with
  | nil =>
    obtain ⟨same, ends⟩ := linked
    cases same
    cases fuel <;> simp [lastBio, show next last = none from ends]
  | cons item rest ih =>
    obtain ⟨same, tail⟩ := linked
    cases same
    obtain ⟨following, step⟩ : ∃ following, next item = some following := by
      cases rest <;> exact ⟨_, tail.head_eq⟩
    cases fuel with
    | zero => rfl
    | succ fuel =>
      rw [step] at tail
      simp only [lastBio, step, ih tail, length_cons, Nat.succ_lt_succ_iff]

theorem appendBio_eq (linked : Linked next first (before ++ [last]) none) :
    appendBio fuel next first addr =
      if before.length < fuel then some (first, update next last (some addr)) else none := by
  cases first with
  | none => cases before <;> cases linked.head_eq
  | some b =>
    rw [appendBio, lastBio_eq linked]
    split <;> rfl

theorem mergeFirst_append_cons (apart : ∀ other ∈ ahead, ¬Adjacent other bio) (adjacent : Adjacent request bio) :
    mergeFirst mergeReq bio (ahead ++ request :: behind) = some (ahead ++ { request with
      bio := request.bio ++ [bio], nrSectors := (request.nrSectors + bio.size / 2 ^ 9) % 2 ^ 32 } :: behind) := by
  induction ahead with
  | nil => simp [mergeFirst, adjacent.merge]
  | cons other rest ih =>
    have passed := mergeReq_eq_none.mpr (apart other mem_cons_self)
    have later := ih fun other member => apart other (mem_cons_of_mem _ member)
    simp only [cons_append, mergeFirst, passed, later, Option.map_some]

namespace ChainedQueue

variable {state : ChainedQueue} {entries : List ChainedEntry}

section

variable (linked : ∀ entry ∈ entries, Linked state.next entry.1.bio entry.2 none)
  (nonempty : ∀ entry ∈ entries, entry.2 ≠ [])
include linked nonempty

/-- What `elv_merge_bio` finds, given the chains of the requests. -/
theorem mergeFirst_eq (searched : state.mergeFirst fuel addr (entries.map Prod.fst) = some result) :
    (result = none ∧ ∀ entry ∈ entries, entry.1.endSector ≠ (state.bios addr).sector) ∨
    ∃ ahead entry behind before last, entries = ahead ++ entry :: behind ∧
      (∀ other ∈ ahead, other.1.endSector ≠ (state.bios addr).sector) ∧
      entry.1.endSector = (state.bios addr).sector ∧ entry.2 = before ++ [last] ∧
      result = some (ahead.map Prod.fst ++ entry.1.grown (state.bios addr) :: behind.map Prod.fst,
        update state.next last (some addr)) := by
  induction entries generalizing result with
  | nil =>
    cases searched
    exact .inl ⟨rfl, nofun⟩
  | cons entry rest ih =>
    rw [forall_mem_cons] at linked nonempty
    by_cases joins : entry.1.endSector = (state.bios addr).sector
    · obtain ⟨before, last, shape⟩ := (eq_nil_or_concat' entry.2).resolve_left nonempty.1
      have here := linked.1
      rw [shape] at here
      simp only [map_cons, mergeFirst, mergeReq, joins, if_true, appendBio_eq here] at searched
      by_cases enough : before.length < fuel
      · simp only [if_pos enough, Option.map_some, Option.some.injEq] at searched
        refine .inr ⟨[], entry, rest, before, last, rfl, nofun, joins, shape, ?_⟩
        rw [← searched]
        rfl
      · simp [if_neg enough] at searched
    · simp only [map_cons, mergeFirst, mergeReq, joins, if_false, Option.map_eq_some_iff] at searched
      obtain ⟨tail, found, rfl⟩ := searched
      rcases ih linked.2 nonempty.2 found with
        ⟨rfl, apart⟩ | ⟨ahead, target, behind, before, last, rfl, apart, joined, shape, rfl⟩
      · exact .inl ⟨rfl, forall_mem_cons.mpr ⟨joins, apart⟩⟩
      · exact .inr ⟨entry :: ahead, target, behind, before, last, rfl,
          forall_mem_cons.mpr ⟨joins, apart⟩, joined, shape, rfl⟩

theorem mergeFirst_isSome (enough : ∀ entry ∈ entries, entry.2.length ≤ fuel) :
    (state.mergeFirst fuel addr (entries.map Prod.fst)).isSome := by
  induction entries with
  | nil => rfl
  | cons entry rest ih =>
    rw [forall_mem_cons] at linked nonempty enough
    by_cases joins : entry.1.endSector = (state.bios addr).sector
    · obtain ⟨before, last, shape⟩ := (eq_nil_or_concat' entry.2).resolve_left nonempty.1
      have here := linked.1
      have short := enough.1
      rw [shape] at here short
      rw [length_append] at short
      simp [mergeFirst, mergeReq, joins, appendBio_eq here, Nat.lt_of_succ_le short]
    · simpa [mergeFirst, mergeReq, joins] using ih linked.2 nonempty.2 enough.2

end

theorem insertChained_eq (entries : List ChainedEntry) :
    ∃ ahead behind, entries = ahead ++ behind ∧
      insertChained request (entries.map Prod.fst) = ahead.map Prod.fst ++ request :: behind.map Prod.fst ∧
      ∀ (bios : Nat → Bio) (chain : List Nat),
        insertSorted (ChainedEntry.request bios (request, chain)) (entries.map (ChainedEntry.request bios)) =
          ahead.map (ChainedEntry.request bios) ++ ChainedEntry.request bios (request, chain) ::
            behind.map (ChainedEntry.request bios) := by
  induction entries with
  | nil => exact ⟨[], [], rfl, rfl, fun _ _ => rfl⟩
  | cons entry rest ih =>
    by_cases earlier : request.sector < entry.1.sector
    · refine ⟨[], entry :: rest, rfl, if_pos earlier, fun bios chain => if_pos earlier⟩
    · obtain ⟨ahead, behind, rfl, inserted, sorted⟩ := ih
      refine ⟨entry :: ahead, behind, rfl, ?_, fun bios chain => ?_⟩
      · simp only [map_cons, insertChained, if_neg earlier, inserted, cons_append]
      · exact (if_neg earlier).trans (congrArg _ (sorted bios chain))

/-- Both elevators put a new request somewhere among the others. -/
theorem addChained_eq (elevator : Elevator) (request : ChainedRequest) (entries : List ChainedEntry) :
    ∃ ahead behind, entries = ahead ++ behind ∧
      elevator.addChained request (entries.map Prod.fst) =
        ahead.map Prod.fst ++ request :: behind.map Prod.fst ∧
      ∀ (bios : Nat → Bio) (chain : List Nat),
        elevator.addReqFn false (ChainedEntry.request bios (request, chain))
            (entries.map (ChainedEntry.request bios)) =
          ahead.map (ChainedEntry.request bios) ++ ChainedEntry.request bios (request, chain) ::
            behind.map (ChainedEntry.request bios) := by
  cases elevator with
  | noop => exact ⟨entries, [], (append_nil entries).symm, rfl, fun _ _ => rfl⟩
  | deadline => exact insertChained_eq entries

/-- How a bio gets into the queue: into the first request that ends where it
starts, or else into a request of its own, if there is memory for one. -/
inductive Admits (state : ChainedQueue) (addr : Nat) :
    List ChainedEntry → (ended : Bool) → List ChainedEntry → Prop where
  | merged {ahead behind : List ChainedEntry} {entry : ChainedEntry}
      (apart : ∀ other ∈ ahead, other.1.endSector ≠ (state.bios addr).sector)
      (joins : entry.1.endSector = (state.bios addr).sector) :
      Admits state addr (ahead ++ entry :: behind) false
        (ahead ++ (entry.1.grown (state.bios addr), entry.2 ++ [addr]) :: behind)
  | added {ahead behind : List ChainedEntry}
      (apart : ∀ other ∈ ahead ++ behind, other.1.endSector ≠ (state.bios addr).sector) :
      Admits state addr (ahead ++ behind) false (ahead ++ (state.newRequest addr, [addr]) :: behind)
  | refused {entries : List ChainedEntry}
      (apart : ∀ other ∈ entries, other.1.endSector ≠ (state.bios addr).sector) :
      Admits state addr entries true entries

theorem Chains.merged {ahead behind : List ChainedEntry} {entry : ChainedEntry}
    (chains : state.Chains (ahead ++ entry :: behind)) (shape : entry.2 = before ++ [last])
    (free : addr ∉ (ahead ++ entry :: behind).flatMap Prod.snd) (ends : state.next addr = none) :
    Chains { state with
        queue := ahead.map Prod.fst ++ entry.1.grown (state.bios addr) :: behind.map Prod.fst
        next := update state.next last (some addr) }
      (ahead ++ (entry.1.grown (state.bios addr), entry.2 ++ [addr]) :: behind) := by
  have distinct := chains.distinct
  simp only [flatMap_append, flatMap_cons, mem_append, not_or] at distinct free
  have lastHere : last ∈ entry.2 := by simp [shape]
  -- the last bio of the request is in no other chain, so only its own link changes
  have elsewhere : ∀ other ∈ ahead ++ behind, last ∉ other.2 := by
    intro other member again
    rw [nodup_append] at distinct
    rcases mem_append.mp member with early | late
    · exact distinct.2.2 last (mem_flatMap.mpr ⟨other, early, again⟩) last
        (mem_append_left _ lastHere) rfl
    · have behindDistinct := distinct.2.1
      rw [nodup_append] at behindDistinct
      exact behindDistinct.2.2 last lastHere last (mem_flatMap.mpr ⟨other, late, again⟩) rfl
  have kept : ∀ other ∈ ahead ++ behind,
      Linked (update state.next last (some addr)) other.1.bio other.2 none := by
    intro other member
    refine (chains.linked other ?_).update_outside (elsewhere other member) _
    simp only [mem_append, mem_cons] at member ⊢
    exact member.imp_right .inr
  refine ⟨by simp, fun other member => ?_, fun other member => ?_, ?_⟩
  · simp only [mem_append, mem_cons] at member
    rcases member with early | rfl | late
    · exact kept other (mem_append_left _ early)
    · have linked := chains.linked entry (by simp)
      rw [shape] at linked ⊢
      exact linked.push (by rw [← shape]; exact free.2.1) ends
    · exact kept other (mem_append_right _ late)
  · simp only [mem_append, mem_cons] at member
    rcases member with early | rfl | late
    · exact chains.nonempty other (by simp [early])
    · simp
    · exact chains.nonempty other (by simp [late])
  · simp only [flatMap_append, flatMap_cons]
    have moved : (List.flatMap Prod.snd ahead ++ (entry.2 ++ [addr] ++ List.flatMap Prod.snd behind)).Perm
        (addr :: (List.flatMap Prod.snd ahead ++ (entry.2 ++ List.flatMap Prod.snd behind))) := by
      simp only [append_assoc, singleton_append]
      rw [← append_assoc, ← append_assoc]
      exact perm_middle
    rw [moved.nodup_iff, nodup_cons]
    refine ⟨?_, distinct⟩
    simp only [mem_append, not_or]
    exact free

theorem Chains.added {ahead behind : List ChainedEntry} (chains : state.Chains (ahead ++ behind))
    (free : addr ∉ (ahead ++ behind).flatMap Prod.snd) (ends : state.next addr = none) :
    Chains { state with
        queue := ahead.map Prod.fst ++ state.newRequest addr :: behind.map Prod.fst }
      (ahead ++ (state.newRequest addr, [addr]) :: behind) := by
  have member_cases : ∀ other ∈ ahead ++ (state.newRequest addr, [addr]) :: behind,
      other = (state.newRequest addr, [addr]) ∨ other ∈ ahead ++ behind := by
    intro other member
    simp only [mem_append, mem_cons] at member ⊢
    rcases member with early | same | late
    · exact .inr (.inl early)
    · exact .inl same
    · exact .inr (.inr late)
  refine ⟨by simp, fun other member => ?_, fun other member => ?_, ?_⟩
  · rcases member_cases other member with rfl | old
    · exact ⟨rfl, ends⟩
    · exact chains.linked other old
  · rcases member_cases other member with rfl | old
    · exact cons_ne_nil _ _
    · exact chains.nonempty other old
  · have distinct := chains.distinct
    simp only [flatMap_append, flatMap_cons, singleton_append] at distinct free ⊢
    rw [perm_middle.nodup_iff, nodup_cons]
    exact ⟨free, distinct⟩

theorem Chains.makeRequest {alloc ended : Bool} {after : ChainedQueue} (chains : state.Chains entries)
    (free : addr ∉ entries.flatMap Prod.snd) (ends : state.next addr = none)
    (done : state.makeRequest fuel addr alloc = some (after, ended)) :
    ∃ entries', after.Chains entries' ∧ after.bios = state.bios ∧ after.elevator = state.elevator ∧
      state.Admits addr entries ended entries' ∧
      Block.makeRequest (state.listed entries) (state.bios addr) alloc = (after.listed entries', ended) := by
  simp only [ChainedQueue.makeRequest, chains.queue] at done
  cases searched : state.mergeFirst fuel addr (entries.map Prod.fst) with
  | none => simp [searched] at done
  | some result =>
    rw [searched] at done
    rcases mergeFirst_eq chains.linked chains.nonempty searched with
      ⟨rfl, apart⟩ | ⟨ahead, entry, behind, before, last, rfl, apart, joins, shape, rfl⟩
    · have unmerged : Block.mergeFirst Block.mergeReq (state.bios addr)
          (entries.map (ChainedEntry.request state.bios)) = none := by
        refine mergeFirst_eq_none.mpr fun request member => mergeReq_eq_none.mpr ?_
        obtain ⟨entry, listed, rfl⟩ := mem_map.mp member
        exact apart entry listed
      cases alloc with
      | false =>
        cases done
        refine ⟨entries, chains, rfl, rfl, .refused apart, ?_⟩
        simp [Block.makeRequest, elvMergeBio, listed, Elevator.mergeFn_eq, unmerged]
      | true =>
        obtain ⟨ahead, behind, rfl, added, sorted⟩ :=
          addChained_eq state.elevator (state.newRequest addr) entries
        simp only [added] at done
        obtain ⟨rfl, rfl⟩ := done
        refine ⟨_, chains.added free ends, rfl, rfl, .added apart, ?_⟩
        have placed := sorted state.bios [addr]
        simp only [Block.makeRequest, elvMergeBio, listed, Elevator.mergeFn_eq, unmerged,
          elvAddRequest]
        rw [show (state.bios addr).request =
          ChainedEntry.request state.bios (state.newRequest addr, [addr]) from rfl, placed]
        simp
    · obtain ⟨rfl, rfl⟩ := done
      refine ⟨_, chains.merged shape free ends, rfl, rfl, .merged apart joins, ?_⟩
      have merged : Block.mergeFirst Block.mergeReq (state.bios addr)
          ((ahead ++ entry :: behind).map (ChainedEntry.request state.bios)) =
          some ((ahead ++ (entry.1.grown (state.bios addr), entry.2 ++ [addr]) :: behind).map
            (ChainedEntry.request state.bios)) := by
        have adjacent : Adjacent (ChainedEntry.request state.bios entry) (state.bios addr) := joins
        rw [map_append, map_cons, mergeFirst_append_cons (fun other member => ?_) adjacent]
        · simp [ChainedEntry.request, ChainedRequest.grown]
        · obtain ⟨source, listed, rfl⟩ := mem_map.mp member
          exact apart source listed
      simp only [Block.makeRequest, elvMergeBio, listed, Option.bind_some, Elevator.mergeFn_eq, merged,
        Option.map_some]

theorem Chains.makeRequest_isSome (chains : state.Chains entries) :
    ∃ fuel, (state.makeRequest fuel addr alloc).isSome := by
  obtain ⟨fuel, enough⟩ : ∃ fuel, ∀ entry ∈ entries, entry.2.length ≤ fuel :=
    ⟨(entries.map fun entry => entry.2.length).sum, fun entry member =>
      le_sum_of_mem (mem_map.mpr ⟨entry, member, rfl⟩)⟩
  have searches : (state.mergeFirst fuel addr (entries.map Prod.fst)).isSome :=
    mergeFirst_isSome chains.linked chains.nonempty enough
  obtain ⟨result, searched⟩ := Option.isSome_iff_exists.mp searches
  refine ⟨fuel, ?_⟩
  simp only [ChainedQueue.makeRequest, chains.queue, searched]
  cases result with
  | some pair => rfl
  | none => cases alloc <;> rfl

end ChainedQueue

end Rucix.Block
