import Rucix.Fs.Buffer.Hash

namespace Rucix.Fs

open Rucix.Data Function List

/-! The pointers of the hash table represent the chains of a `BufferCache`. -/

namespace BufferHash

variable {table : BufferHash} {addr : Nat} {head : HashedHead} {assign : HashedHead → HashedHead}

def contents (table : BufferHash) (addr : Nat) : Option BufferHead :=
  (table.heads addr).map HashedHead.toBufferHead

theorem nextHash_eq (stored : table.heads addr = some head) : table.nextHash addr = head.nextHash := by
  rw [nextHash, stored, Option.bind_some]

theorem pprevHash_eq (stored : table.heads addr = some head) : table.pprevHash addr = head.pprevHash := by
  rw [pprevHash, stored, Option.bind_some]

theorem contents_eq (stored : table.heads addr = some head) : table.contents addr = some head.toBufferHead := by
  rw [contents, stored, Option.map_some]

theorem field_setHead {α : Type} (field : Option HashedHead → α) (table : BufferHash) (addr : Nat)
    (head : Option HashedHead) : (fun other => field ((table.setHead addr head).heads other)) =
      update (fun other => field (table.heads other)) addr (field head) := by
  funext other
  by_cases same : other = addr
  · subst same
    simp [setHead]
  · simp [setHead, same]

/-- What the table holds, one field of the buffers after the other. -/
structure View where
  next : Nat → Option Nat
  back : Nat → Option (Link Nat Nat)
  contents : Nat → Option BufferHead
  bhHash : Nat → Option Nat
  count : Int

def view (table : BufferHash) : View :=
  ⟨table.nextHash, table.pprevHash, table.contents, table.bhHash, table.bufferCacheCount⟩

theorem view_setHead (head : Option HashedHead) :
    (table.setHead addr head).view =
      { table.view with
        next := update table.view.next addr (head.bind HashedHead.nextHash)
        back := update table.view.back addr (head.bind HashedHead.pprevHash)
        contents := update table.view.contents addr (head.map HashedHead.toBufferHead) } := by
  have next := field_setHead (fun head => head.bind HashedHead.nextHash) table addr head
  have back := field_setHead (fun head => head.bind HashedHead.pprevHash) table addr head
  have contents := field_setHead (fun head => head.map HashedHead.toBufferHead) table addr head
  simp only [view, View.mk.injEq]
  exact ⟨next, back, contents, rfl, rfl⟩

theorem view_modify {change : BufferHead → BufferHead} (next : ∀ head, (assign head).nextHash = head.nextHash)
    (pprev : ∀ head, (assign head).pprevHash = head.pprevHash)
    (changed : ∀ head, (assign head).toBufferHead = change head.toBufferHead) :
    (table.modify addr assign).view =
      { table.view with contents := update table.contents addr ((table.contents addr).map change) } := by
  rw [modify, view_setHead]
  cases stored : table.heads addr with
  | none => simp [view, contents, nextHash, pprevHash, stored]
  | some head => simp [view, contents, nextHash, pprevHash, stored, next, pprev, changed]

theorem heads_of_contents (present : table.contents addr ≠ none) : ∃ head, table.heads addr = some head := by
  cases stored : table.heads addr with
  | none => simp [contents, stored] at present
  | some head => exact ⟨head, rfl⟩

section Writes

variable {view : View} {index : Nat} (viewed : table.view = view)
include viewed

theorem view_setNextHash (present : view.contents addr ≠ none) (next : Option Nat) :
    (table.setNextHash addr next).view = { view with next := update view.next addr next } := by
  subst viewed
  obtain ⟨head, stored⟩ := heads_of_contents present
  rw [setNextHash, modify, view_setHead]
  simp [BufferHash.view, contents, pprevHash, stored]

theorem view_setPprevHash (present : view.contents addr ≠ none) (link : Option (Link Nat Nat)) :
    (table.setPprevHash addr link).view = { view with back := update view.back addr link } := by
  subst viewed
  obtain ⟨head, stored⟩ := heads_of_contents present
  rw [setPprevHash, modify, view_setHead]
  simp [BufferHash.view, contents, nextHash, stored]

theorem view_setPprevAt {bh : Option Nat} (present : ∀ addr, bh = some addr → view.contents addr ≠ none)
    (link : Option (Link Nat Nat)) : (table.setPprevAt bh link).view =
      { view with back := fun other => if bh = some other then link else view.back other } := by
  cases bh with
  | none => simpa [setPprevAt] using viewed
  | some addr =>
    rw [setPprevAt, Option.elim_some, view_setPprevHash viewed (present addr rfl)]
    simp [funext_iff, update_apply, eq_comm]

theorem view_writeLink {link : Link Nat Nat} (present : ∀ before, link = .next before → view.contents before ≠ none)
    (value : Option Nat) : (table.writeLink value link).view =
      { view with next := link.writeNext view.next value, bhHash := link.writeHead view.bhHash value } := by
  cases link with
  | head index => exact viewed ▸ rfl
  | next before => exact view_setNextHash viewed (present before rfl) value

end Writes

/-- The new buffer points at the old first one, which points back. -/
def backed (table : BufferHash) (index addr : Nat) : BufferHash :=
  (table.setNextHash addr (table.bhHash index)).setPprevAt (table.bhHash index) (some (.next addr))

theorem view_link (present : table.contents addr ≠ none)
    (first : ∀ other, table.bhHash index = some other → table.contents other ≠ none) :
    (table.link index addr).view =
      { table.view with
        next := update table.nextHash addr (table.bhHash index)
        back := fun other => if other = addr then some (.head index)
          else if table.bhHash index = some other then some (.next addr) else table.pprevHash other
        bhHash := update table.bhHash index (some addr) } := by
  have backed : (table.backed index addr).view = _ :=
    view_setPprevAt (view_setNextHash rfl present (table.bhHash index)) first (some (.next addr))
  have linked : ((table.backed index addr).writeLink (some addr) (.head index)).view = _ :=
    @view_writeLink _ _ backed (.head index) nofun (some addr)
  refine (view_setPprevHash linked present (some (.head index))).trans ?_
  simp only [view, Link.writeNext, Link.writeHead, update_apply, View.mk.injEq, funext_iff, implies_true, and_self]

theorem view_unlink {link : Link Nat Nat} (pointer : head.pprevHash = some link)
    (behind : ∀ other, head.nextHash = some other → table.contents other ≠ none)
    (before : ∀ other, link = .next other → table.contents other ≠ none) : (table.unlink head).view =
      { table.view with
        next := link.writeNext table.nextHash head.nextHash
        back := fun other => if head.nextHash = some other then some link else table.pprevHash other
        bhHash := link.writeHead table.bhHash head.nextHash } := by
  simp only [unlink, pointer]
  exact view_writeLink (view_setPprevAt rfl behind (some link)) before head.nextHash

end BufferHash

theorem BufferHash.brelse_evicts {table : BufferHash} {addr : Nat} {head : HashedHead}
    (stored : table.heads addr = some head)
    (evicts : head.count - 1 = 0 ∧ head.dirty = false ∧ maxBufferCache < table.bufferCacheCount) :
    table.brelse addr =
      let head := { head with count := head.count - 1 }
      { ((table.setHead addr (some head)).unlink head).setHead addr none with
        bufferCacheCount := table.bufferCacheCount - 1 } := by
  simp only [BufferHash.brelse, stored]
  exact if_pos evicts

theorem BufferHash.brelse_keeps {table : BufferHash} {addr : Nat} {head : HashedHead}
    (stored : table.heads addr = some head)
    (keeps : ¬(head.count - 1 = 0 ∧ head.dirty = false ∧ maxBufferCache < table.bufferCacheCount)) :
    table.brelse addr = table.setHead addr (some { head with count := head.count - 1 }) := by
  simp only [BufferHash.brelse, stored]
  exact if_neg keeps

namespace BufferCache

variable {cache : BufferCache} {addr : Nat} {head : BufferHead}

theorem setHead_setHead (cache : BufferCache) (first : Option BufferHead) :
    (cache.setHead addr first).setHead addr second = cache.setHead addr second := by
  simp [setHead]

theorem brelse_evicts (stored : cache.heads addr = some head)
    (evicts : head.count - 1 = 0 ∧ head.dirty = false ∧ maxBufferCache < cache.bufferCacheCount) :
    cache.brelse addr =
      let index := hash head.bdev head.blocknr
      { cache.setHead addr none with
        bhHash := update cache.bhHash index ((cache.bhHash index).erase addr)
        bufferCacheCount := cache.bufferCacheCount - 1 } := by
  simp only [BufferCache.brelse, stored]
  exact if_pos evicts

theorem brelse_keeps (stored : cache.heads addr = some head)
    (keeps : ¬(head.count - 1 = 0 ∧ head.dirty = false ∧ maxBufferCache < cache.bufferCacheCount)) :
    cache.brelse addr = cache.setHead addr (some { head with count := head.count - 1 }) := by
  simp only [BufferCache.brelse, stored]
  exact if_neg keeps

theorem mem_link_iff : other ∈ (cache.link index addr).bhHash target ↔
    other = addr ∧ target = index ∨ other ∈ cache.bhHash target := by
  change other ∈ update cache.bhHash index (addr :: cache.bhHash index) target ↔ _
  by_cases same : target = index
  · subst same
    simp
  · simp [same]

end BufferCache

structure BufferHash.Represents (table : BufferHash) (cache : BufferCache) : Prop where
  chains : Chains table.nextHash table.bhHash table.pprevHash cache.bhHash
  contents : cache.heads = table.contents
  count : cache.bufferCacheCount = table.bufferCacheCount
  stored : ∀ index, ∀ addr ∈ cache.bhHash index, cache.heads addr ≠ none

namespace BufferHash.Represents

variable {table after : BufferHash} {cache : BufferCache} {addr bdev : Nat}

theorem of_view {view : View} (viewed : table.view = view)
    (chains : Chains view.next view.bhHash view.back cache.bhHash) (contents : cache.heads = view.contents)
    (count : cache.bufferCacheCount = view.count)
    (stored : ∀ index, ∀ addr ∈ cache.bhHash index, cache.heads addr ≠ none) :
    table.Represents cache := by
  subst viewed
  exact ⟨chains, contents, count, stored⟩

theorem searchChain_spec (linked : Linked table.nextHash bh items none)
    (stored : ∀ addr ∈ items, table.contents addr ≠ none) :
    (items.length < fuel → (table.searchChain bdev block size fuel bh).isSome) ∧
      ∀ result, table.searchChain bdev block size fuel bh = some result →
        result = items.find? fun addr => (table.contents addr).any fun head => head.isFor bdev block size := by
  induction fuel generalizing bh items with
  | zero => exact ⟨fun short => by omega, nofun⟩
  | succ fuel ih =>
    cases items with
    | nil =>
      cases (show bh = none from linked)
      exact ⟨fun _ => rfl, fun _ returned => (Option.some.inj returned).symm⟩
    | cons addr rest =>
      obtain ⟨rfl, linked⟩ := linked
      rw [forall_mem_cons] at stored
      obtain ⟨head, found⟩ := heads_of_contents stored.1
      rw [nextHash_eq found] at linked
      simp only [searchChain, found, find?_cons, contents_eq found, Option.any_some, length_cons]
      cases head.isFor bdev block size with
      | true => exact ⟨fun _ => rfl, fun _ returned => (Option.some.inj returned).symm⟩
      | false =>
        obtain ⟨returns, same⟩ := ih linked stored.2
        exact ⟨fun short => returns (by omega), same⟩

variable (represents : table.Represents cache)
include represents

theorem present (listed : addr ∈ cache.bhHash index) : table.contents addr ≠ none := by
  rw [← represents.contents]
  exact represents.stored index addr listed

theorem search_eq (returned : table.searchChain bdev block size fuel (table.bhHash (hash bdev block)) = some result) :
    cache.search bdev block size = result := by
  rw [(searchChain_spec (represents.chains.linked _) fun _ => represents.present).2 result returned,
    BufferCache.search, represents.contents]

theorem modify (assign : HashedHead → HashedHead) (change : BufferHead → BufferHead)
    (next : ∀ head, (assign head).nextHash = head.nextHash) (pprev : ∀ head, (assign head).pprevHash = head.pprevHash)
    (changed : ∀ head, (assign head).toBufferHead = change head.toBufferHead) (addr : Nat) :
    (table.modify addr assign).Represents (cache.setHead addr ((cache.heads addr).map change)) := by
  refine .of_view (view_modify next pprev changed) represents.chains ?_ represents.count fun index other listed => ?_
  · rw [← represents.contents]
    rfl
  · have present := represents.stored index other listed
    by_cases same : other = addr
    · subst same
      simpa [BufferCache.setHead] using present
    · simpa [BufferCache.setHead, same] using present

theorem takeReference (addr : Nat) : (table.takeReference addr).Represents (cache.takeReference addr) :=
  represents.modify (fun head => { head with count := head.count + 1 })
    (fun head => { head with count := head.count + 1 }) (fun _ => rfl) (fun _ => rfl) (fun _ => rfl) addr

theorem unlisted (free : table.heads addr = none) (index : Nat) : addr ∉ cache.bhHash index := by
  intro listed
  have present := represents.stored index addr listed
  rw [represents.contents] at present
  simp [BufferHash.contents, free] at present

theorem setHead (unlisted : ∀ index, addr ∉ cache.bhHash index) (head : Option HashedHead) :
    (table.setHead addr head).Represents (cache.setHead addr (head.map HashedHead.toBufferHead)) := by
  have apart : ∀ index, ∀ other ∈ cache.bhHash index, other ≠ addr := fun index other listed =>
    ne_of_mem_of_not_mem listed (unlisted index)
  refine .of_view (view_setHead head) ?_ ?_ represents.count fun index other listed => ?_
  · refine represents.chains.congr (fun index other listed => ?_) fun index other listed => ?_
    · exact update_of_ne (apart index other listed) _ _
    · exact update_of_ne (apart index other listed) _ _
  · rw [view, ← represents.contents]
    rfl
  · have present := represents.stored index other listed
    simpa [BufferCache.setHead, apart index other listed] using present

theorem allocBufferHead (fresh : ∀ addr, alloc.head = some addr → table.heads addr = none)
    (done : table.allocBufferHead alloc bdev block size = some (given, after)) :
    table.heads given = none ∧ ∃ data, after.Represents (cache.withHead given data bdev block size) := by
  simp only [BufferHash.allocBufferHead] at done
  split at done
  · rename_i addr data allocated _
    cases done
    have free := fresh given allocated
    have stored := represents.setHead (represents.unlisted free)
      (some { freshHead data bdev block size with nextHash := none, pprevHash := none })
    refine ⟨free, data, stored.chains, stored.contents, ?_, stored.stored⟩
    exact congrArg (· + 1) represents.count
  · cases done

theorem link (unlisted : ∀ index, addr ∉ cache.bhHash index) (allocated : cache.heads addr ≠ none) (index : Nat) :
    (table.link index addr).Represents (cache.link index addr) := by
  have first : ∀ other, table.bhHash index = some other → other ∈ cache.bhHash index := by
    intro other found
    exact mem_of_mem_head? ((represents.chains.linked index).head_eq ▸ found)
  have here : table.contents addr ≠ none := represents.contents ▸ allocated
  refine .of_view (view_link here fun other found => represents.present (first other found)) ?_ represents.contents
    represents.count fun target other listed => ?_
  · refine represents.chains.pushFront unlisted (if_pos rfl) (fun other found => ?_) fun other different behind => ?_
    · have different : other ≠ addr := ne_of_mem_of_not_mem (first other found) (unlisted index)
      exact (if_neg different).trans (if_pos found)
    · exact (if_neg different).trans (if_neg behind)
  · rcases BufferCache.mem_link_iff.mp listed with ⟨rfl, -⟩ | old
    · exact allocated
    · exact represents.stored target other old

theorem unlink {head : HashedHead} {index : Nat} {before behind : List Nat} (stored : table.heads addr = some head)
    (shape : cache.bhHash index = before ++ addr :: behind) : (table.unlink head).Represents
      { cache with bhHash := update cache.bhHash index (before ++ behind) } := by
  have listed : before ++ behind ⊆ cache.bhHash index := by
    rw [shape]
    exact ((sublist_cons_self addr behind).append_left before).subset
  have pointer := represents.chains.back_eq shape
  have follower := represents.chains.next_eq shape
  have headPointer := (pprevHash_eq stored).symm.trans pointer
  have headFollower := nextHash_eq stored
  have behindPresent : ∀ other, head.nextHash = some other → table.contents other ≠ none := by
    intro other found
    refine represents.present (listed (mem_append_right _ ?_))
    exact mem_of_mem_head? (follower ▸ headFollower ▸ found)
  have beforePresent : ∀ other, (Link.head index).behind before = .next other →
      table.contents other ≠ none := by
    intro other found
    rcases eq_nil_or_concat before with rfl | ⟨early, last, rfl⟩
    · cases found
    · have same : last = other := by simpa [Link.behind] using found
      exact represents.present (listed (by simp [same]))
  refine .of_view (view_unlink headPointer behindPresent beforePresent) ?_ represents.contents represents.count
    fun target other member => ?_
  · rw [← headFollower]
    refine represents.chains.unlink shape pointer (fun other found => ?_) fun other different => if_neg different
    exact (if_pos found).trans pointer.symm
  · exact represents.stored target other ((represents.chains.mem_remove shape).mp member).1

theorem evict {head : HashedHead} (stored : table.heads addr = some head) (listed : addr ∈ cache.bhHash index) :
    ({ (table.unlink head).setHead addr none with
        bufferCacheCount := table.bufferCacheCount - 1 } : BufferHash).Represents
      { cache.setHead addr none with
        bhHash := update cache.bhHash index ((cache.bhHash index).erase addr)
        bufferCacheCount := cache.bufferCacheCount - 1 } := by
  obtain ⟨before, behind, shape⟩ := append_of_mem listed
  have erased : (cache.bhHash index).erase addr = before ++ behind := by
    have distinct := represents.chains.nodup index
    rw [shape, nodup_middle, nodup_cons, mem_append, not_or] at distinct
    rw [shape, erase_append_right _ distinct.1.1, erase_cons_head]
  have unlinked := represents.unlink stored shape
  have gone : ∀ target, addr ∉ update cache.bhHash index (before ++ behind) target := by
    intro target member
    exact ((represents.chains.mem_remove shape).mp member).2 rfl
  have freed := unlinked.setHead gone none
  rw [erased]
  exact ⟨freed.chains, freed.contents, congrArg (· - 1) represents.count, freed.stored⟩

theorem brelse (placed : ∀ head, cache.heads addr = some head → addr ∈ cache.bhHash (hash head.bdev head.blocknr)) :
    (table.brelse addr).Represents (cache.brelse addr) := by
  have contents : cache.heads addr = table.contents addr := congrFun represents.contents addr
  cases stored : table.heads addr with
  | none =>
    have absent : cache.heads addr = none := by rw [contents, BufferHash.contents, stored]; rfl
    simpa only [BufferHash.brelse, BufferCache.brelse, stored, absent] using represents
  | some head =>
    have found : cache.heads addr = some head.toBufferHead := contents.trans (contents_eq stored)
    have lowered := represents.modify (fun head => { head with count := head.count - 1 })
      (fun head => { head with count := head.count - 1 }) (fun _ => rfl) (fun _ => rfl) (fun _ => rfl) addr
    rw [BufferHash.modify, stored, found] at lowered
    by_cases evicts : head.count - 1 = 0 ∧ head.dirty = false ∧ maxBufferCache < table.bufferCacheCount
    · have freed := lowered.evict (update_self ..) (placed _ found)
      rw [cache.setHead_setHead] at freed
      rw [BufferHash.brelse_evicts stored evicts, BufferCache.brelse_evicts found (represents.count ▸ evicts)]
      exact freed
    · rw [BufferHash.brelse_keeps stored evicts, BufferCache.brelse_keeps found (represents.count ▸ evicts)]
      exact lowered

end BufferHash.Represents

end Rucix.Fs
