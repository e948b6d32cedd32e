import Mathlib.Data.Finset.Basic
import Rucix.Block.Chains

namespace Rucix.Block

open Rucix.Data Function List

/-! What the queue of an elevator says about its bios.

Others may have been put in front of the request that `elv_next_request` gave to
the driver, so a removal may be that of any request in the queue.
-/

def Contiguous : (sector : Nat) → List Bio → Prop
  | _, [] => True
  | sector, bio :: rest => bio.sector = sector ∧ Contiguous ((sector + bio.size / 512) % 2 ^ 64) rest

def sectorBehind : (sector : Nat) → List Bio → Nat
  | sector, [] => sector
  | sector, bio :: rest => sectorBehind ((sector + bio.size / 512) % 2 ^ 64) rest

def sectorTotal (bios : List Bio) : Nat := (bios.map fun bio => bio.size / 512).sum

theorem contiguous_append : Contiguous sector (first ++ second) ↔
      Contiguous sector first ∧ Contiguous (sectorBehind sector first) second := by
  induction first generalizing sector with
  | nil => simp [Contiguous, sectorBehind]
  | cons bio rest ih => simp only [cons_append, Contiguous, ih, sectorBehind, and_assoc]

theorem sectorBehind_eq (nonempty : bios ≠ []) :
    sectorBehind sector bios = (sector + sectorTotal bios) % 2 ^ 64 := by
  induction bios generalizing sector with
  | nil => exact absurd rfl nonempty
  | cons bio rest ih =>
    cases rest with
    | nil => simp [sectorBehind, sectorTotal]
    | cons following more =>
      rw [sectorBehind, ih (cons_ne_nil _ _), Nat.mod_add_mod]
      simp only [sectorTotal, map_cons, sum_cons, Nat.add_assoc]

/-- A request starts with its first bio, ends behind its last one, and counts
the sectors of all. -/
structure ChainedEntry.Bookkept (bios : Nat → Bio) (entry : ChainedEntry) : Prop where
  contiguous : Contiguous entry.1.sector (entry.2.map bios)
  total : entry.1.nrSectors = sectorTotal (entry.2.map bios)

namespace ChainedEntry.Bookkept

variable {bios : Nat → Bio} {entry : ChainedEntry} {addr : Nat}

theorem append (kept : entry.Bookkept bios) (nonempty : entry.2 ≠ []) (joins : entry.1.endSector = (bios addr).sector)
    (fits : entry.1.nrSectors + (bios addr).size / 512 < 2 ^ 32) :
    ChainedEntry.Bookkept bios (entry.1.grown (bios addr), entry.2 ++ [addr]) := by
  have mapped : entry.2.map bios ≠ [] := by simpa using nonempty
  refine ⟨?_, ?_⟩
  · rw [map_append]
    refine (contiguous_append).mpr ⟨kept.contiguous, ?_, trivial⟩
    rw [← joins, ChainedRequest.endSector, kept.total]
    exact (sectorBehind_eq mapped).symm
  · have grown : (entry.1.grown (bios addr)).nrSectors = entry.1.nrSectors + (bios addr).size / 512 :=
      Nat.mod_eq_of_lt fits
    simp only [grown, kept.total, sectorTotal, map_append, sum_append, map_cons, map_nil,
      sum_singleton]

theorem single (state : ChainedQueue) :
    ChainedEntry.Bookkept state.bios (state.newRequest addr, [addr]) :=
  ⟨⟨rfl, trivial⟩, by simp [sectorTotal, ChainedQueue.newRequest]⟩

theorem congr {other : Nat → Bio} (kept : entry.Bookkept bios) (same : ∀ addr ∈ entry.2, other addr = bios addr) :
    entry.Bookkept other := by
  have mapped : entry.2.map other = entry.2.map bios := map_congr_left same
  exact ⟨mapped ▸ kept.contiguous, mapped ▸ kept.total⟩

end ChainedEntry.Bookkept

/-- A call of `__make_request` with the outcome of its allocation and whether it
called `end_io`, or the removal of a request with these bios. -/
inductive QueueOp where
  | makeRequest (addr : Nat) (bio : Bio) (alloc ended : Bool)
  | remove (chain : List Nat)

namespace ChainedQueue

def Queued (state : ChainedQueue) (addr : Nat) : Prop :=
  ∃ request ∈ state.queue, ∃ chain, Linked state.next request.bio chain none ∧ addr ∈ chain

/-- A bio with `next = NULL`, ready to be submitted. -/
def place (state : ChainedQueue) (addr : Nat) (bio : Bio) : ChainedQueue :=
  { state with bios := update state.bios addr bio, next := update state.next addr none }

/-- The request that takes the bio can count its sectors. -/
def Fits (state : ChainedQueue) (bio : Bio) : Prop :=
  ∀ ahead request behind, state.queue = ahead ++ request :: behind →
    (∀ other ∈ ahead, other.endSector ≠ bio.sector) → request.endSector = bio.sector →
    request.nrSectors + bio.size / 512 < 2 ^ 32

end ChainedQueue

/-- A bio that is submitted is not in the queue already. -/
inductive QueueStep (before : ChainedQueue) : QueueOp → ChainedQueue → Prop where
  | makeRequest {addr fuel : Nat} {bio : Bio} {alloc ended : Bool} {after : ChainedQueue}
      (free : ¬before.Queued addr) (fits : before.Fits bio)
      (done : (before.place addr bio).makeRequest fuel addr alloc = some (after, ended)) :
      QueueStep before (.makeRequest addr bio alloc ended) after
  | remove {ahead behind : List ChainedRequest} {request : ChainedRequest} {chain : List Nat}
      (queued : before.queue = ahead ++ request :: behind)
      (linked : Linked before.next request.bio chain none) :
      QueueStep before (.remove chain) { before with queue := ahead ++ behind }

/-- The bios that were put into the queue and not removed with their request. -/
def QueueOp.track (queued : Finset Nat) : QueueOp → Finset Nat
  | .makeRequest addr _ _ ended => if ended then queued else insert addr queued
  | .remove chain => queued \ chain.toFinset

def queuedAfter (trace : List QueueOp) : Finset Nat := trace.foldl QueueOp.track ∅

/-- The state of a run in which the bios in `queued` are in the queue. -/
structure ChainedQueue.Kept (state : ChainedQueue) (entries : List ChainedEntry) (queued : Finset Nat) :
    Prop where
  chains : state.Chains entries
  bookkept : ∀ entry ∈ entries, entry.Bookkept state.bios
  exact : ∀ addr, addr ∈ entries.flatMap Prod.snd ↔ addr ∈ queued

namespace ChainedQueue

variable {state after : ChainedQueue} {entries : List ChainedEntry} {queued : Finset Nat} {addr : Nat} {bio : Bio}

theorem Chains.queued_iff (chains : state.Chains entries) : state.Queued addr ↔ addr ∈ entries.flatMap Prod.snd := by
  constructor
  · rintro ⟨request, member, chain, linked, listed⟩
    rw [chains.queue] at member
    obtain ⟨entry, found, rfl⟩ := mem_map.mp member
    rw [linked.unique (chains.linked entry found)] at listed
    exact mem_flatMap.mpr ⟨entry, found, listed⟩
  · intro member
    obtain ⟨entry, found, listed⟩ := mem_flatMap.mp member
    refine ⟨entry.1, ?_, entry.2, chains.linked entry found, listed⟩
    rw [chains.queue]
    exact mem_map_of_mem found

theorem Kept.place (kept : state.Kept entries queued) (free : addr ∉ entries.flatMap Prod.snd) (bio : Bio) :
    (state.place addr bio).Kept entries queued := by
  have outside : ∀ entry ∈ entries, addr ∉ entry.2 := fun entry member listed =>
    free (mem_flatMap.mpr ⟨entry, member, listed⟩)
  refine ⟨⟨kept.chains.queue, fun entry member => ?_, kept.chains.nonempty, kept.chains.distinct⟩,
    fun entry member => ?_, kept.exact⟩
  · exact (kept.chains.linked entry member).update_outside (outside entry member) none
  · refine (kept.bookkept entry member).congr fun other listed => ?_
    exact update_of_ne (ne_of_mem_of_not_mem listed (outside entry member)) _ _

theorem Kept.admits (kept : state.Kept entries queued) (chains : after.Chains entries')
    (sameBios : after.bios = state.bios) (fits : state.Fits (state.bios addr))
    (admits : state.Admits addr entries ended entries') :
    after.Kept entries' (if ended then queued else insert addr queued) := by
  refine ⟨chains, fun entry member => ?_, fun other => ?_⟩
  · rw [sameBios]
    cases admits with
    | @merged ahead behind target apart joins =>
      have room := fits (ahead.map Prod.fst) target.1 (behind.map Prod.fst) (by simp [kept.chains.queue])
        (by simpa using fun request chain member => apart (request, chain) member) joins
      simp only [mem_append, mem_cons] at member
      rcases member with early | rfl | late
      · exact kept.bookkept entry (by simp [early])
      · exact (kept.bookkept target (by simp)).append (kept.chains.nonempty target (by simp)) joins room
      · exact kept.bookkept entry (by simp [late])
    | added apart =>
      simp only [mem_append, mem_cons] at member
      rcases member with early | rfl | late
      · exact kept.bookkept entry (by simp [early])
      · exact .single state
      · exact kept.bookkept entry (by simp [late])
    | refused apart => exact kept.bookkept entry member
  · cases admits with
    | merged apart joins =>
      have before := kept.exact other
      simp only [flatMap_append, flatMap_cons, mem_append] at before ⊢
      simp only [Bool.false_eq_true, if_false, Finset.mem_insert, ← before, mem_singleton]
      simp only [or_assoc, or_left_comm]
    | added apart =>
      have before := kept.exact other
      simp only [flatMap_append, flatMap_cons, mem_append] at before ⊢
      simp only [Bool.false_eq_true, if_false, Finset.mem_insert, ← before, mem_singleton]
      simp only [or_left_comm]
    | refused apart => simpa using kept.exact other

/-- A call of `__make_request`, with the way the bio takes. -/
theorem Kept.makeRequest {alloc ended : Bool} {fuel : Nat} (kept : state.Kept entries queued)
    (free : ¬state.Queued addr) (fits : state.Fits bio)
    (done : (state.place addr bio).makeRequest fuel addr alloc = some (after, ended)) :
    ∃ entries', (state.place addr bio).Admits addr entries ended entries' ∧
      after.Kept entries' (if ended then queued else insert addr queued) := by
  rw [kept.chains.queued_iff] at free
  have placed := kept.place free bio
  have bioHere : (state.place addr bio).bios addr = bio := update_self ..
  have ends : (state.place addr bio).next addr = none := update_self ..
  obtain ⟨entries', chains, sameBios, -, admits, -⟩ := placed.chains.makeRequest free ends done
  refine ⟨entries', admits, placed.admits chains sameBios ?_ admits⟩
  rw [bioHere]
  exact fits

theorem Chains.split {ahead behind : List ChainedRequest} {request : ChainedRequest} {chain : List Nat}
    (chains : state.Chains entries) (queued : state.queue = ahead ++ request :: behind)
    (linked : Linked state.next request.bio chain none) :
    ∃ early late, entries = early ++ (request, chain) :: late ∧ ahead = early.map Prod.fst ∧
      behind = late.map Prod.fst := by
  obtain ⟨early, rest, rfl, rfl, tail⟩ := map_eq_append_iff.mp (chains.queue.symm.trans queued)
  obtain ⟨entry, late, rfl, rfl, rfl⟩ := map_eq_cons_iff.mp tail
  have same := linked.unique (chains.linked entry (by simp))
  subst same
  exact ⟨early, late, rfl, rfl, rfl⟩

theorem Kept.remove (kept : state.Kept entries queued) (shape : state.queue = ahead ++ request :: behind)
    (linked : Linked state.next request.bio chain none) :
    ∃ entries', ({ state with queue := ahead ++ behind } : ChainedQueue).Kept entries'
      (queued \ chain.toFinset) := by
  obtain ⟨early, late, rfl, rfl, rfl⟩ := kept.chains.split shape linked
  have still : ∀ entry ∈ early ++ late, entry ∈ early ++ (request, chain) :: late := by
    intro entry member
    simp only [mem_append, mem_cons] at member ⊢
    exact member.imp_right .inr
  have distinct := kept.chains.distinct
  simp only [flatMap_append, flatMap_cons] at distinct
  have moved : (early.flatMap Prod.snd ++ (chain ++ late.flatMap Prod.snd)).Perm
      (chain ++ (early.flatMap Prod.snd ++ late.flatMap Prod.snd)) := by
    rw [← append_assoc, ← append_assoc]
    exact perm_append_comm.append_right _
  rw [moved.nodup_iff, nodup_append] at distinct
  refine ⟨early ++ late, ⟨⟨by simp, fun entry member => kept.chains.linked entry (still entry member),
    fun entry member => kept.chains.nonempty entry (still entry member), ?_⟩,
    fun entry member => kept.bookkept entry (still entry member), fun addr => ?_⟩⟩
  · rw [flatMap_append]
    exact distinct.2.1
  · have before := kept.exact addr
    simp only [flatMap_append, flatMap_cons, mem_append] at before ⊢
    rw [Finset.mem_sdiff, ← before, mem_toFinset]
    constructor
    · intro member
      refine ⟨member.imp_right .inr, fun removed => ?_⟩
      exact distinct.2.2 addr removed addr (mem_append.mpr member) rfl
    · rintro ⟨early | removed | late, outside⟩
      · exact .inl early
      · exact absurd removed outside
      · exact .inr late

end ChainedQueue

theorem QueueStep.kept {before after : ChainedQueue} {op : QueueOp} {entries : List ChainedEntry}
    {queued : Finset Nat} (step : QueueStep before op after) (kept : before.Kept entries queued) :
    ∃ entries', after.Kept entries' (op.track queued) := by
  cases step with
  | makeRequest free fits done =>
    obtain ⟨entries', -, kept⟩ := kept.makeRequest free fits done
    exact ⟨entries', kept⟩
  | remove shape linked => exact kept.remove shape linked

theorem queue_run_kept {next : Nat → Option Nat} (run : Run QueueStep (.empty elevator bios next) trace state) :
    ∃ entries, state.Kept entries (queuedAfter trace) := by
  induction run with
  | nil => exact ⟨[], ⟨⟨rfl, nofun, nofun, nodup_nil⟩, nofun, fun _ => by simp [queuedAfter]⟩⟩
  | snoc earlier last ih =>
    obtain ⟨entries, kept⟩ := ih
    rw [queuedAfter, foldl_append]
    exact last.kept kept

/-- No call fails for a bio that can be merged or has memory for a request. -/
theorem ChainedQueue.makeRequest_ended {state after : ChainedQueue} {fuel addr : Nat} {alloc ended : Bool}
    (done : state.makeRequest fuel addr alloc = some (after, ended)) (failed : ended = true) : alloc = false := by
  subst failed
  cases alloc with
  | false => rfl
  | true =>
    simp only [makeRequest] at done
    split at done <;> simp at done

theorem ChainedQueue.Admits.queue {state after : ChainedQueue} {entries entries' : List ChainedEntry} {addr : Nat}
    {ended : Bool} (admits : state.Admits addr entries ended entries') (before : state.Chains entries)
    (behind : after.Chains entries') :
    (ended = false ∧ ∃ ahead request behind chain, state.queue = ahead ++ request :: behind ∧
      (∀ other ∈ ahead, other.endSector ≠ (state.bios addr).sector) ∧
      request.endSector = (state.bios addr).sector ∧
      after.queue = ahead ++ request.grown (state.bios addr) :: behind ∧
      Linked state.next request.bio chain none ∧ Linked after.next request.bio (chain ++ [addr]) none) ∨
    (∀ request ∈ state.queue, request.endSector ≠ (state.bios addr).sector) ∧
      (ended = false ∧ (∃ ahead behind, state.queue = ahead ++ behind ∧
        after.queue = ahead ++ state.newRequest addr :: behind) ∧ after.next addr = none ∨
      ended = true ∧ after.queue = state.queue) := by
  have apart_queue : ∀ {list : List ChainedEntry},
      (∀ other ∈ list, other.1.endSector ≠ (state.bios addr).sector) →
      ∀ request ∈ list.map Prod.fst, request.endSector ≠ (state.bios addr).sector := by
    intro list apart request member
    obtain ⟨entry, listed, rfl⟩ := mem_map.mp member
    exact apart entry listed
  cases admits with
  | @merged ahead late entry apart joins =>
    refine .inl ⟨rfl, ahead.map Prod.fst, entry.1, late.map Prod.fst, entry.2, ?_, apart_queue apart, joins, ?_,
      before.linked entry (by simp), behind.linked _ (mem_append_right _ mem_cons_self)⟩
    · simp [before.queue]
    · simp [behind.queue]
  | @added ahead late apart =>
    refine .inr ⟨before.queue ▸ apart_queue apart, .inl ⟨rfl, ⟨ahead.map Prod.fst, late.map Prod.fst, ?_, ?_⟩, ?_⟩⟩
    · simp [before.queue]
    · simp [behind.queue]
    · exact (behind.linked _ (mem_append_right _ mem_cons_self)).2
  | refused apart =>
    exact .inr ⟨before.queue ▸ apart_queue apart, .inr ⟨rfl, behind.queue.trans before.queue.symm⟩⟩

/-- Each request has a chain of contiguous bios whose sectors it counts, the chains
hold exactly the bios in the queue, each once, and a bio goes into the first request
that ends where it starts or into one of its own. -/
theorem elevator_queue_run {elevator : Elevator} {bios : Nat → Bio} {next : Nat → Option Nat} {trace : List QueueOp}
    {state : ChainedQueue} (run : Run QueueStep (.empty elevator bios next) trace state) :
    (∃ chains : List (List Nat), chains.flatten.Nodup ∧
      (∀ addr, addr ∈ chains.flatten ↔ addr ∈ queuedAfter trace) ∧
      List.Forall₂ (fun request chain => chain ≠ [] ∧ Linked state.next request.bio chain none ∧
        Contiguous request.sector (chain.map state.bios) ∧
        request.nrSectors = sectorTotal (chain.map state.bios)) state.queue chains) ∧
    (∀ addr bio alloc ended after, QueueStep state (.makeRequest addr bio alloc ended) after →
      (ended = true → alloc = false) ∧
      ((ended = false ∧ ∃ ahead request behind chain, state.queue = ahead ++ request :: behind ∧
        (∀ other ∈ ahead, other.endSector ≠ bio.sector) ∧ request.endSector = bio.sector ∧
        after.queue = ahead ++ request.grown bio :: behind ∧
        Linked state.next request.bio chain none ∧ Linked after.next request.bio (chain ++ [addr]) none) ∨
      (∀ request ∈ state.queue, request.endSector ≠ bio.sector) ∧
        (ended = false ∧ (∃ ahead behind, state.queue = ahead ++ behind ∧
          after.queue = ahead ++ (state.place addr bio).newRequest addr :: behind) ∧
          after.next addr = none ∨
        ended = true ∧ after.queue = state.queue))) ∧
    ∀ addr bio alloc, ¬state.Queued addr → ∃ fuel, ((state.place addr bio).makeRequest fuel addr alloc).isSome := by
  obtain ⟨entries, kept⟩ := queue_run_kept run
  refine ⟨⟨entries.map Prod.snd, ?_, ?_, ?_⟩, ?_, ?_⟩
  · exact kept.chains.distinct
  · exact kept.exact
  · rw [kept.chains.queue, List.forall₂_map_left_iff, List.forall₂_map_right_iff, List.forall₂_same]
    intro entry member
    exact ⟨kept.chains.nonempty entry member, kept.chains.linked entry member,
      (kept.bookkept entry member).contiguous, (kept.bookkept entry member).total⟩
  · intro addr bio alloc ended after step
    cases step with
    | makeRequest free fits done =>
      refine ⟨ChainedQueue.makeRequest_ended done, ?_⟩
      obtain ⟨entries', admits, keptAfter⟩ := kept.makeRequest free fits done
      rw [kept.chains.queued_iff] at free
      have way := admits.queue (kept.place free bio).chains keptAfter.chains
      have bioHere : (state.place addr bio).bios addr = bio := update_self ..
      rw [bioHere] at way
      rcases way with ⟨merged, ahead, request, behind, chain, split, apart, joins, grown, linked, longer⟩ | other
      · obtain ⟨early, late, rfl, -, -⟩ := (kept.place free bio).chains.split split linked
        have original := kept.chains.linked (request, chain) (by simp)
        exact .inl ⟨merged, ahead, request, behind, chain, split, apart, joins, grown, original, longer⟩
      · exact .inr other
  · intro addr bio alloc free
    rw [kept.chains.queued_iff] at free
    exact (kept.place free bio).chains.makeRequest_isSome

def sectorBio (sector : Nat) : Bio :=
  { tag := 0, sector, size := 512, ioVec := [], rw := read, flags := 0 }

def noBios : ChainedQueue := .empty .deadline (fun _ => sectorBio 0) fun _ => none

def oneBio : ChainedQueue :=
  { noBios.place 1 (sectorBio 10) with
    queue := [{ sector := 10, nrSectors := 1, buffer := 0, bio := some 1, flags := read }] }

def twoBios : ChainedQueue :=
  { oneBio.place 2 (sectorBio 11) with
    queue := [{ sector := 10, nrSectors := 2, buffer := 0, bio := some 1, flags := read }]
    next := update (oneBio.place 2 (sectorBio 11)).next 1 (some 2) }

theorem twoBios_run : Run QueueStep noBios
    [.makeRequest 1 (sectorBio 10) true false, .makeRequest 2 (sectorBio 11) true false] twoBios := by
  have first : QueueStep noBios (.makeRequest 1 (sectorBio 10) true false) oneBio := by
    refine @QueueStep.makeRequest _ _ 1 _ _ _ _ (fun queued => ?_) (fun ahead request behind split => ?_) rfl
    · obtain ⟨request, member, -⟩ := queued
      cases member
    · cases ahead <;> cases split
  have second : QueueStep oneBio (.makeRequest 2 (sectorBio 11) true false) twoBios := by
    refine @QueueStep.makeRequest _ _ 1 _ _ _ _ (fun queued => ?_) (fun ahead request behind split _ _ => ?_) rfl
    · obtain ⟨request, member, chain, linked, listed⟩ := queued
      cases mem_singleton.mp member
      have alone : Linked oneBio.next (some 1) [1] none := ⟨rfl, rfl⟩
      rw [linked.unique alone] at listed
      simp at listed
    · cases ahead with
      | nil =>
        cases split
        decide
      | cons other rest => cases rest <;> cases split
  exact .snoc (.snoc .nil first) second

theorem elevator_queue_run_merged :
    ∃ chains : List (List Nat), chains.flatten.Nodup ∧ (∀ addr, addr ∈ chains.flatten ↔ addr ∈ ({1, 2} : Finset Nat)) ∧
      List.Forall₂ (fun request chain => chain ≠ [] ∧ Linked twoBios.next request.bio chain none ∧
        Contiguous request.sector (chain.map twoBios.bios) ∧
        request.nrSectors = sectorTotal (chain.map twoBios.bios)) twoBios.queue chains := by
  obtain ⟨chains, distinct, exact, kept⟩ := (elevator_queue_run twoBios_run).1
  refine ⟨chains, distinct, fun addr => ?_, kept⟩
  rw [exact, show queuedAfter [.makeRequest 1 (sectorBio 10) true false,
    .makeRequest 2 (sectorBio 11) true false] = {1, 2} by decide]

end Rucix.Block
