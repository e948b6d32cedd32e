import Rucix.Data.Run
import Rucix.Fs.Filemap.Refinement

namespace Rucix.Fs

open Rucix.Data Rucix.Lib Function

/-! The reference counts of cached pages.

A page that the loops make themselves starts at 0 and is lowered all the same: it
rests at -1.
-/

structure PageRefs where
  count : Int
  mapping : Bool
  index : Nat
deriving DecidableEq

def Page.refs (page : Page) : PageRefs := ⟨page.count, page.mapping, page.index⟩

variable {state after held start : Filemap} {index addr : Nat}

namespace Filemap

def pageAt (state : Filemap) (index : Nat) : Option Nat := radixTreeLookup state.pageTree index

def refsAt (state : Filemap) (addr : Nat) : Option PageRefs := (state.pages addr).map Page.refs

def countAt (state : Filemap) (addr : Nat) : Option Int := (state.refsAt addr).map PageRefs.count

structure Cached (state : Filemap) : Prop where
  valid : state.pageTree.Valid
  stored : ∀ index addr, state.pageAt index = some addr → ∃ count, state.refsAt addr = some ⟨count, true, index⟩
  mapped : ∀ addr count index, state.refsAt addr = some ⟨count, true, index⟩ → state.pageAt index = some addr

def NonNegative (state : Filemap) : Prop :=
  ∀ index addr count, state.pageAt index = some addr → state.countAt addr = some count → 0 ≤ count

theorem refsAt_adjust (same : ∀ page, (change page).refs = assign page.refs) (state : Filemap) :
    (state.adjust addr change).refsAt =
      update state.refsAt addr ((state.refsAt addr).map assign) := by
  funext other
  by_cases here : other = addr
  · subst here
    cases found : state.pages other <;> simp [refsAt, adjust, setPage, found, same]
  · simp [refsAt, adjust, setPage, here]

theorem refsAt_getPage (state : Filemap) : (state.getPage addr).refsAt =
    update state.refsAt addr ((state.refsAt addr).map fun refs =>
      { refs with count := refs.count + 1 }) :=
  refsAt_adjust (fun _ => rfl) state

theorem refsAt_putPage (state : Filemap) : (state.putPage addr).refsAt =
    update state.refsAt addr ((state.refsAt addr).map fun refs =>
      { refs with count := refs.count - 1 }) :=
  refsAt_adjust (fun _ => rfl) state

theorem refsAt_setPageDirty (state : Filemap) : (state.setPageDirty addr).refsAt = state.refsAt := by
  have marked : (state.setPageDirty addr).refsAt =
      update state.refsAt addr ((state.refsAt addr).map fun refs => refs) :=
    refsAt_adjust (fun _ => rfl) state
  rw [marked, Option.map_id', update_eq_self]

/-- `find_get_page` and `put_page` cancel. -/
theorem refsAt_putPage_getPage (state : Filemap) (addr : Nat) :
    ((state.getPage addr).putPage addr).refsAt = state.refsAt := by
  rw [refsAt_putPage, refsAt_getPage, update_self, update_idem, Option.map_map]
  have same : (state.refsAt addr).map ((fun refs : PageRefs => { refs with count := refs.count - 1 }) ∘
      fun refs => { refs with count := refs.count + 1 }) = state.refsAt addr := by
    cases state.refsAt addr <;> simp
  rw [same, update_eq_self]

/-- What a loop does to the cache: pages that were there stay as they are, and
new ones, at the positions it touches, rest at -1. -/
structure Extends (state : Filemap) (touched : Nat → Prop) (after : Filemap) : Prop where
  kept : ∀ index addr, state.pageAt index = some addr →
    after.pageAt index = some addr ∧ after.countAt addr = state.countAt addr
  added : ∀ index addr, after.pageAt index = some addr → state.pageAt index = some addr ∨
    touched index ∧ state.pageAt index = none ∧ state.refsAt addr = none ∧ after.countAt addr = some (-1)
  allocated : ∀ addr, state.refsAt addr ≠ none → after.refsAt addr ≠ none

theorem pageAt_congr (tree : after.pageTree = state.pageTree) : after.pageAt = state.pageAt := by
  funext index
  rw [pageAt, tree, pageAt]

theorem Extends.of_eq (tree : after.pageTree = state.pageTree) (refs : after.refsAt = state.refsAt) :
    state.Extends touched after := by
  have pages := pageAt_congr tree
  refine ⟨fun index addr found => ?_, fun index addr found => ?_, fun addr present => ?_⟩
  · rw [pages, countAt, refs]
    exact ⟨found, rfl⟩
  · rw [pages] at found
    exact .inl found
  · rwa [refs]

theorem Extends.mono (extension : state.Extends touched after) (implies : ∀ index, touched index → more index) :
    state.Extends more after :=
  ⟨extension.kept, fun index addr found => (extension.added index addr found).imp_right
    (And.imp_left (implies index)), extension.allocated⟩

theorem Extends.trans (first : state.Extends touched middle) (second : middle.Extends touched after) :
    state.Extends touched after := by
  refine ⟨fun index addr found => ?_, fun index addr found => ?_, fun addr present => ?_⟩
  · obtain ⟨there, count⟩ := first.kept index addr found
    obtain ⟨still, count'⟩ := second.kept index addr there
    exact ⟨still, count'.trans count⟩
  · rcases second.added index addr found with there | ⟨inside, absent, fresh, count⟩
    · rcases first.added index addr there with here | ⟨inside, absent, fresh, count⟩
      · exact .inl here
      · exact .inr ⟨inside, absent, fresh, (second.kept index addr there).2.trans count⟩
    · refine .inr ⟨inside, ?_, ?_, count⟩
      · cases before : state.pageAt index with
        | none => rfl
        | some old => cases absent.symm.trans (first.kept index old before).1
      · by_contra present
        exact first.allocated addr present fresh
  · exact second.allocated addr (first.allocated addr present)

inductive Takes (state : Filemap) (alloc : Allocation) (index addr : Nat) (held : Filemap) : Prop where
  | hit (found : state.pageAt index = some addr) (same : held = state.getPage addr)
  | miss {frame : Nat} {tree : RadixTreeRoot Nat} {data : PageData} (absent : state.pageAt index = none)
      (given : alloc.page = some addr) (unused : state.refsAt addr = none) (valid : tree.Valid)
      (lookups : ∀ other, radixTreeLookup tree other =
        if other = index then some addr else radixTreeLookup state.pageTree other)
      (same : held = state.withPage tree index addr frame data)

/-- What `obtainPage` may return: the page it found, nothing, or a new page
that `prepare` filled or failed to fill. -/
inductive Obtains (state : Filemap) (alloc : Allocation) (prepare : PageData → PageData × Bool) (index : Nat) :
    Option Nat × Filemap → Prop where
  | hit {addr : Nat} (found : state.pageAt index = some addr) :
      Obtains state alloc prepare index (some addr, state.getPage addr)
  | failed {after : Filemap} (absent : state.pageAt index = none) (valid : after.pageTree.Valid)
      (same : after.pageAt = state.pageAt) : Obtains state alloc prepare index (none, after)
  | inserted {frame addr : Nat} {tree : RadixTreeRoot Nat} (absent : state.pageAt index = none)
      (given : alloc.page = some addr) (valid : tree.Valid)
      (lookups : ∀ other, radixTreeLookup tree other =
        if other = index then some addr else radixTreeLookup state.pageTree other) :
      Obtains state alloc prepare index (if (prepare (state.memory frame)).2 then some addr else none,
        state.withPage tree index addr frame (prepare (state.memory frame)).1)

theorem obtainPage_obtains (valid : state.pageTree.Valid) (bounded : index < 2 ^ 60)
    (obtained : state.obtainPage alloc prepare index = some result) : state.Obtains alloc prepare index result := by
  cases found : radixTreeLookup state.pageTree index with
  | some there =>
    simp only [obtainPage, findGetPage, found, Option.some.injEq] at obtained
    exact obtained ▸ .hit found
  | none =>
    cases frameGiven : alloc.frame with
    | none =>
      simp only [obtainPage, findGetPage, found, frameGiven, Option.some.injEq] at obtained
      exact obtained ▸ .failed found valid rfl
    | some frame =>
      cases pageGiven : alloc.page with
      | none =>
        simp only [obtainPage, findGetPage, found, frameGiven, pageGiven, Option.some.injEq] at obtained
        exact obtained ▸ .failed found valid rfl
      | some page =>
        obtain ⟨⟨inserted, tree, calls⟩, returned, spec⟩ :=
          radixTreeInsert_terminates valid bounded page
        cases inserted with
        | true =>
          rw [obtainPage_inserted found frameGiven pageGiven returned] at obtained
          cases obtained
          exact .inserted found pageGiven spec.valid fun other => by simpa using spec.lookups other
        | false =>
          -- the second lookup finds nothing either
          have same : radixTreeLookup tree = radixTreeLookup state.pageTree := by
            funext other
            simpa using spec.lookups other
          have failed : radixTreeInsert alloc.nodes 10 (state.setPage page (some
              { virtual := frame, count := 0, dirty := false, mapping := false, index := 0 })).pageTree
              index page = some (false, tree, calls) := returned
          simp only [obtainPage, findGetPage, found, frameGiven, pageGiven, addToPageCache, failed,
            Option.map_some, Bool.false_eq_true, if_false] at obtained
          simp only [setPage, same, found, Option.some.injEq] at obtained
          exact obtained ▸ .failed found spec.valid same

theorem refsAt_withPage (state : Filemap) (tree : RadixTreeRoot Nat) :
    (state.withPage tree index addr frame data).refsAt =
      update state.refsAt addr (some ⟨0, true, index⟩) := by
  funext other
  by_cases here : other = addr
  · subst here
    simp [refsAt, Filemap.withPage, setPage, Page.refs]
  · simp [refsAt, Filemap.withPage, setPage, here]

structure Inserted (state after : Filemap) (addr index : Nat) : Prop where
  absent : state.pageAt index = none
  missing : state.refsAt addr = none
  valid : after.pageTree.Valid
  pages : ∀ other, after.pageAt other = if other = index then some addr else state.pageAt other
  refs : after.refsAt = update state.refsAt addr (some ⟨-1, true, index⟩)

theorem countAt_held (takes : state.Takes alloc index addr held) :
    held.countAt addr = some 0 ∧ state.pageAt index = none ∨
      state.pageAt index = some addr ∧ held.countAt addr = (state.countAt addr).map (· + 1) := by
  cases takes with
  | hit found same =>
    subst same
    refine .inr ⟨found, ?_⟩
    rw [countAt, refsAt_getPage, update_self, countAt, Option.map_map, Option.map_map]
    rfl
  | miss absent given unused valid lookups same =>
    subst same
    refine .inl ⟨?_, absent⟩
    rw [countAt, refsAt_withPage, update_self]
    rfl

/-- `kmalloc` hands out memory that is not in use for the pages that are missing. -/
structure Supplies (state : Filemap) (allocs : Nat → Allocation) : Prop where
  unused : ∀ index addr, (allocs index).page = some addr → state.pageAt index = none → state.refsAt addr = none
  distinct : ∀ index other addr, (allocs index).page = some addr → (allocs other).page = some addr →
    index = other

theorem Takes.supplies (takes : state.Takes (allocs index) index addr held) (supplies : state.Supplies allocs)
    (tree : after.pageTree = held.pageTree) (refs : after.refsAt = (held.putPage addr).refsAt) :
    after.Supplies allocs := by
  refine ⟨fun other page given missing => ?_, supplies.distinct⟩
  cases takes with
  | hit found same =>
    subst same
    rw [refs, refsAt_putPage_getPage]
    rw [pageAt, tree] at missing
    exact supplies.unused other page given missing
  | miss absent mine unused valid lookups same =>
    subst same
    have missing : (if other = index then some addr else state.pageAt other) = none := by
      rw [← missing, pageAt, pageAt, tree]
      exact (lookups other).symm
    split at missing
    · cases missing
    · rename_i different
      have apart : page ≠ addr := by
        rintro rfl
        exact different (supplies.distinct other index page given mine)
      rw [refs, refsAt_putPage, refsAt_withPage, update_idem, update_of_ne apart]
      exact supplies.unused other page given missing

variable (cached : state.Cached)
include cached

theorem Cached.congr (tree : after.pageTree = state.pageTree)
    (refs : after.refsAt = state.refsAt) : after.Cached := by
  have pages := pageAt_congr tree
  refine ⟨tree ▸ cached.valid, fun index addr found => ?_, fun addr count index found => ?_⟩
  · rw [refs]
    exact cached.stored index addr (pages ▸ found)
  · rw [pages]
    exact cached.mapped addr count index (refs ▸ found)

theorem obtainPage_takes (bounded : index < 2 ^ 60)
    (unused : ∀ addr, alloc.page = some addr → state.pageAt index = none → state.refsAt addr = none)
    (obtained : state.obtainPage alloc prepare index = some (some addr, held)) :
    state.Takes alloc index addr held := by
  generalize packed : (some addr, held) = result at obtained
  cases obtainPage_obtains cached.valid bounded obtained with
  | hit found =>
    cases packed
    exact .hit found rfl
  | failed => cases packed
  | inserted absent given valid lookups =>
    split at packed
    · cases packed
      exact .miss absent given (unused addr given absent) valid lookups rfl
    · cases packed

namespace Inserted

variable (inserted : Inserted state after addr index)
include inserted

theorem apart {other place : Nat}
    (found : state.pageAt other = some place) : place ≠ addr := by
  rintro rfl
  obtain ⟨count, stored⟩ := cached.stored other place found
  cases inserted.missing.symm.trans stored

theorem extension : state.Extends (· = index) after := by
  refine ⟨fun other place found => ?_, fun other place found => ?_, fun place present => ?_⟩
  · have different : other ≠ index := by
      rintro rfl
      cases inserted.absent.symm.trans found
    rw [inserted.pages, if_neg different, countAt, inserted.refs,
      update_of_ne (inserted.apart cached found)]
    exact ⟨found, rfl⟩
  · rw [inserted.pages] at found
    split at found
    · rename_i here
      cases found
      subst here
      refine .inr ⟨rfl, inserted.absent, inserted.missing, ?_⟩
      rw [countAt, inserted.refs, update_self]
      rfl
    · exact .inl found
  · rw [inserted.refs]
    by_cases here : place = addr
    · simp [here]
    · rwa [update_of_ne here]

theorem keeps : after.Cached where
  valid := inserted.valid
  stored := by
    intro other place found
    rw [inserted.pages] at found
    rw [inserted.refs]
    split at found
    · rename_i here
      cases found
      exact ⟨-1, by rw [update_self, here]⟩
    · rw [update_of_ne (inserted.apart cached found)]
      exact cached.stored other place found
  mapped := by
    intro place count other found
    rw [inserted.refs] at found
    rw [inserted.pages]
    by_cases here : place = addr
    · subst here
      rw [update_self] at found
      cases found
      rw [if_pos rfl]
    · rw [update_of_ne here] at found
      have there := cached.mapped place count other found
      rw [if_neg, there]
      rintro rfl
      cases inserted.absent.symm.trans there

end Inserted

theorem Takes.turn (takes : state.Takes alloc index addr held) (tree : after.pageTree = held.pageTree)
    (refs : after.refsAt = (held.putPage addr).refsAt) : state.Extends (· = index) after ∧ after.Cached := by
  cases takes with
  | hit found same =>
    subst same
    rw [refsAt_putPage_getPage] at refs
    exact ⟨.of_eq tree refs, cached.congr tree refs⟩
  | @miss frame newTree data absent given missing valid lookups same =>
    subst same
    have inserted : Inserted state after addr index := by
      refine ⟨absent, missing, tree ▸ valid, fun other => ?_, ?_⟩
      · rw [pageAt, tree]
        exact lookups other
      · rw [refs, refsAt_putPage, refsAt_withPage, update_self, update_idem]
        rfl
    exact ⟨inserted.extension cached, inserted.keeps cached⟩

end Filemap

theorem advance_lt (pos : Nat) : advance pos bytes < 2 ^ 64 := Nat.mod_lt _ (by decide)

theorem page_index_lt (position : pos < 2 ^ 64) : pos / pageSize < 2 ^ 60 := by
  unfold pageSize
  omega

/-- The pages of `count` bytes. -/
def Touched (pos count index : Nat) : Prop := ∃ k < count, index = (pos + k) % 2 ^ 64 / pageSize

theorem Touched.first (position : pos < 2 ^ 64) (more : count ≠ 0) : Touched pos count (pos / pageSize) :=
  ⟨0, Nat.pos_of_ne_zero more, by rw [Nat.add_zero, Nat.mod_eq_of_lt position]⟩

theorem Touched.rest (touched : Touched (advance pos (chunkBytes pos count)) (count - chunkBytes pos count) index) :
    Touched pos count index := by
  obtain ⟨k, small, rfl⟩ := touched
  refine ⟨chunkBytes pos count + k, by omega, ?_⟩
  rw [advance, Nat.mod_add_mod, Nat.add_assoc]

theorem Filemap.Extends.chunk (turn : state.Extends (· = pos / pageSize) middle)
    (rest : middle.Extends (Touched (advance pos (chunkBytes pos count)) (count - chunkBytes pos count)) after)
    (position : pos < 2 ^ 64) (more : count ≠ 0) : state.Extends (Touched pos count) after :=
  (turn.mono fun _ same => same ▸ .first position more).trans (rest.mono fun _ => .rest)

section Loops

variable {allocs : Nat → Allocation} {pos : Nat} {moved : List UInt8}

theorem readLoop_extends (cached : state.Cached) (supplies : state.Supplies allocs) (position : pos < 2 ^ 64)
    (looped : readLoop allocs readpage fuel state pos count moved = some transfer) (success : transfer.failed = false) :
    state.Extends (Touched pos count) transfer.state ∧ transfer.state.Cached := by
  fun_induction readLoop allocs readpage fuel state pos count moved with
  | case1 | case3 =>
    cases looped
    exact ⟨.of_eq rfl rfl, cached⟩
  | case2 | case4 | case6 => cases looped
  | case5 =>
    cases looped
    cases success
  | case7 fuel state pos count moved more index bytes addr held obtained page found chunk ih =>
    have takes := Filemap.obtainPage_takes cached (page_index_lt position) (supplies.unused _) obtained
    have tree : (held.putPage addr).pageTree = held.pageTree := rfl
    obtain ⟨turn, cachedNext⟩ := takes.turn cached tree rfl
    obtain ⟨rest, cachedAfter⟩ := ih cachedNext (takes.supplies supplies tree rfl) (advance_lt _) looped
    exact ⟨turn.chunk rest position more, cachedAfter⟩

theorem Filemap.refsAt_storeChunk (state : Filemap) (addr : Nat) (page : Page) (pos : Nat) (chunk : List UInt8) :
    (state.storeChunk addr page pos chunk).refsAt = (state.putPage addr).refsAt := by
  have dirty : ((state.setMemory page.virtual (overlay (state.memory page.virtual) (pos % pageSize)
      chunk)).setPageDirty addr).refsAt = state.refsAt := refsAt_setPageDirty _
  rw [storeChunk_eq, refsAt_putPage, ← dirty]
  exact refsAt_putPage ..

theorem writeLoop_extends (cached : state.Cached) (supplies : state.Supplies allocs) (position : pos < 2 ^ 64)
    (looped : writeLoop allocs readpage fuel state pos buf moved = some transfer) (success : transfer.failed = false) :
    state.Extends (Touched pos buf.length) transfer.state ∧ transfer.state.Cached := by
  fun_induction writeLoop allocs readpage fuel state pos buf moved with
  | case1 | case3 =>
    cases looped
    exact ⟨.of_eq rfl rfl, cached⟩
  | case2 | case4 | case6 => cases looped
  | case5 =>
    cases looped
    cases success
  | case7 fuel state pos buf moved more index bytes addr held obtained page found chunk ih =>
    have takes := Filemap.obtainPage_takes cached (page_index_lt position) (supplies.unused _) obtained
    have tree := (held.storeChunk_stored addr page pos chunk).pageTree
    have refs := held.refsAt_storeChunk addr page pos chunk
    obtain ⟨turn, cachedNext⟩ := takes.turn cached tree refs
    obtain ⟨rest, cachedAfter⟩ := ih cachedNext (takes.supplies supplies tree refs) (advance_lt _) looped
    rw [List.length_drop] at rest
    exact ⟨turn.chunk rest position (mt List.length_eq_zero_iff.mp more), cachedAfter⟩

end Loops

/-- A call that succeeds; `find_get_page` is followed by `put_page`. -/
inductive PageOp where
  | read (pos : Nat) (count : Int)
  | write (pos : Nat) (buf : List UInt8)
  | findPut (index : Nat)
  | delete (addr : Nat)

def PageOp.Transfers : PageOp → Prop
  | .read .. | .write .. => True
  | _ => False

def PageOp.Touches : PageOp → Nat → Prop
  | .read pos count => Touched pos count.toNat
  | .write pos buf => Touched pos buf.length
  | _ => fun _ => False

inductive PageStep (before : Filemap) : PageOp → Filemap → Prop where
  | read {allocs : Nat → Allocation} {readpage : ReadPage} {pos : Nat} {count : Int} {returned : FileResult}
      (position : pos < 2 ^ 64) (supplies : before.Supplies allocs)
      (done : genericFileRead allocs readpage before count pos = some returned) (success : returned.result ≠ -1) :
      PageStep before (.read pos count) returned.state
  | write {allocs : Nat → Allocation} {readpage : ReadPage} {pos : Nat} {buf : List UInt8} {returned : FileResult}
      (position : pos < 2 ^ 64) (supplies : before.Supplies allocs)
      (done : genericFileWrite allocs readpage before buf pos = some returned) (success : returned.result ≠ -1) :
      PageStep before (.write pos buf) returned.state
  | findPut {index addr : Nat} {held : Filemap} (found : before.findGetPage index = (some addr, held)) :
      PageStep before (.findPut index) (held.putPage addr)
  | delete {addr : Nat} : PageStep before (.delete addr) (before.deleteFromPageCache addr)

theorem Transfer.finish_success {transfer : Transfer} {ppos : Nat} (success : (transfer.finish ppos).result ≠ -1) :
    transfer.failed = false ∧ (transfer.finish ppos).state = transfer.state := by
  cases failed : transfer.failed with
  | false => exact ⟨rfl, by simp [Transfer.finish, failed]⟩
  | true => simp [Transfer.finish, failed] at success

theorem PageStep.extends {op : PageOp} (step : PageStep state op after) (transfers : op.Transfers)
    (cached : state.Cached) : state.Extends op.Touches after ∧ after.Cached := by
  cases step with
  | @read allocs readpage pos count returned position supplies done success =>
    simp only [genericFileRead] at done
    split at done
    · obtain ⟨transfer, looped, rfl⟩ := Option.map_eq_some_iff.mp done
      obtain ⟨moved, same⟩ := Transfer.finish_success success
      rw [same]
      exact readLoop_extends cached supplies position looped moved
    · cases done
      exact absurd rfl success
  | @write allocs readpage pos buf returned position supplies done success =>
    simp only [genericFileWrite] at done
    split at done
    · obtain ⟨transfer, looped, rfl⟩ := Option.map_eq_some_iff.mp done
      obtain ⟨moved, same⟩ := Transfer.finish_success success
      rw [same]
      exact writeLoop_extends cached supplies position looped moved
    · cases done
      exact absurd rfl success
  | findPut | delete => exact transfers.elim

namespace Filemap

structure Removed (state after : Filemap) (addr index : Nat) (count : Int) : Prop where
  own : state.refsAt addr = some ⟨count, true, index⟩
  valid : after.pageTree.Valid
  refs : after.refsAt = update state.refsAt addr (some ⟨count - 1, false, index⟩)
  pages : ∀ other, after.pageAt other = if other = index then none else state.pageAt other

section

variable (cached : state.Cached)
include cached

theorem deleteFromPageCache_cases (addr : Nat) :
    state.deleteFromPageCache addr = state ∨
      ∃ index count, Removed state (state.deleteFromPageCache addr) addr index count := by
  unfold deleteFromPageCache
  split
  · exact .inl rfl
  · rename_i page stored
    split
    · rename_i mapped
      have own : state.refsAt addr = some ⟨page.count, true, page.index⟩ := by
        rw [refsAt, stored, Option.map_some, Page.refs, mapped]
      have spec := radixTreeDelete_spec cached.valid page.index
      generalize radixTreeDelete state.pageTree page.index = result at spec
      obtain ⟨item, tree⟩ := result
      refine .inr ⟨page.index, page.count, own, spec.valid, ?_, spec.lookups⟩
      have cleared : ({ state with
          pageTree := tree
          nrpages := if item.isSome then state.nrpages - 1 else state.nrpages }.adjust addr fun page =>
            { page with mapping := false }).refsAt =
          update state.refsAt addr ((state.refsAt addr).map fun refs =>
            { refs with mapping := false }) := refsAt_adjust (fun _ => rfl) _
      rw [refsAt_putPage, cleared, update_self, update_idem, own]
      rfl
    · exact .inl rfl

namespace Removed

variable (removed : Removed state after addr index count)
include removed

theorem left (found : after.pageAt position = some place) : state.pageAt position = some place ∧ place ≠ addr := by
  rw [removed.pages] at found
  split at found
  · cases found
  · rename_i different
    refine ⟨found, ?_⟩
    rintro rfl
    obtain ⟨count, stored⟩ := cached.stored position place found
    cases removed.own.symm.trans stored
    exact different rfl

theorem keeps : after.Cached where
  valid := removed.valid
  stored := by
    intro position place found
    obtain ⟨before, apart⟩ := removed.left cached found
    rw [removed.refs, update_of_ne apart]
    exact cached.stored position place before
  mapped := by
    intro place count position found
    rw [removed.refs] at found
    by_cases here : place = addr
    · rw [here, update_self] at found
      cases found
    · rw [update_of_ne here] at found
      have old := cached.mapped place count position found
      rw [removed.pages, if_neg, old]
      rintro rfl
      exact here (Option.some.inj (old.symm.trans (cached.mapped addr _ _ removed.own)))

end Removed

theorem Cached.delete (addr : Nat) :
    (state.deleteFromPageCache addr).Cached ∧
    (∀ index place, (state.deleteFromPageCache addr).pageAt index = some place →
      state.pageAt index = some place ∧ (state.deleteFromPageCache addr).countAt place = state.countAt place) ∧
    ∀ place, state.refsAt place ≠ none → (state.deleteFromPageCache addr).refsAt place ≠ none := by
  rcases deleteFromPageCache_cases cached addr with same | ⟨index, count, removed⟩
  · rw [same]
    exact ⟨cached, fun _ _ found => ⟨found, rfl⟩, fun _ present => present⟩
  · refine ⟨removed.keeps cached, fun position place found => ?_, fun place present => ?_⟩
    · obtain ⟨before, apart⟩ := removed.left cached found
      refine ⟨before, ?_⟩
      rw [countAt, removed.refs, update_of_ne apart, countAt]
    · rw [removed.refs]
      by_cases here : place = addr
      · simp [here]
      · rwa [update_of_ne here]

end

/-- The counts after any calls: those of the start for pages that were cached
then, and -1 for all others. -/
structure Since (start state : Filemap) : Prop where
  cached : state.Cached
  counts : ∀ index addr, state.pageAt index = some addr →
    state.countAt addr = if start.pageAt index = some addr then start.countAt addr else some (-1)
  allocated : ∀ addr, start.refsAt addr ≠ none → state.refsAt addr ≠ none

theorem Since.of_extends (since : start.Since state) (startCached : start.Cached)
    (extension : state.Extends touched after) (cached : after.Cached) : start.Since after := by
  refine ⟨cached, fun index addr found => ?_, fun addr present =>
    extension.allocated addr (since.allocated addr present)⟩
  rcases extension.added index addr found with before | ⟨-, -, unused, count⟩
  · rw [(extension.kept index addr before).2]
    exact since.counts index addr before
  · -- a page of the start is still allocated, so the new one is none of them
    rw [count, if_neg]
    intro old
    obtain ⟨first, stored⟩ := startCached.stored index addr old
    exact since.allocated addr (by simp [stored]) unused

theorem Since.of_delete (since : start.Since state) (addr : Nat) : start.Since (state.deleteFromPageCache addr) := by
  obtain ⟨cached, kept, allocated⟩ := since.cached.delete addr
  refine ⟨cached, fun index place found => ?_, fun place present => allocated place (since.allocated place present)⟩
  obtain ⟨before, count⟩ := kept index place found
  rw [count]
  exact since.counts index place before

theorem Since.nonNegative_iff (since : start.Since state) (nonNegative : start.NonNegative) :
    state.NonNegative ↔ ∀ index addr, state.pageAt index = some addr → start.pageAt index = some addr := by
  refine ⟨fun counts index addr found => ?_, fun old index addr count found here => ?_⟩
  · by_contra new
    have count := since.counts index addr found
    rw [if_neg new] at count
    have bound := counts index addr (-1) found count
    omega
  · have before := old index addr found
    have same := since.counts index addr found
    rw [if_pos before, here] at same
    exact nonNegative index addr count before same.symm

theorem findGetPage_eq (found : state.findGetPage index = (some addr, held)) :
    held = state.getPage addr := by
  unfold findGetPage at found
  split at found <;> cases found
  rfl

end Filemap

theorem PageStep.since (step : PageStep state op after) (startCached : start.Cached) (since : start.Since state) :
    start.Since after := by
  by_cases transfers : op.Transfers
  · obtain ⟨extension, cached⟩ := step.extends transfers since.cached
    exact since.of_extends startCached extension cached
  · cases step with
    | read | write => exact absurd trivial transfers
    | findPut found =>
      obtain rfl := Filemap.findGetPage_eq found
      have refs := state.refsAt_putPage_getPage
      exact since.of_extends startCached (show state.Extends (fun _ => False) _ from .of_eq rfl (refs _))
        (since.cached.congr rfl (refs _))
    | delete => exact since.of_delete _

theorem page_run_since (cached : start.Cached) (run : Run PageStep start trace state) : start.Since state :=
  run.invariant ⟨cached, fun _ _ found => (if_pos found).symm, fun _ present => present⟩
    fun _ _ _ since step => step.since cached since

/-- A call that touches cached pages only leaves no other ones in the cache. -/
theorem PageStep.pageAt_of_hits (step : PageStep state op after) (cached : state.Cached)
    (hits : ∀ index, op.Touches index → state.pageAt index ≠ none) (found : after.pageAt index = some addr) :
    state.pageAt index = some addr := by
  by_cases transfers : op.Transfers
  · exact ((step.extends transfers cached).1.added index addr found).resolve_right
      fun added => hits index added.1 added.2.1
  · cases step with
    | read | write => exact absurd trivial transfers
    | findPut known =>
      obtain rfl := Filemap.findGetPage_eq known
      exact found
    | delete => exact ((cached.delete _).2.1 index addr found).1

/-- A read or write leaves the counts of cached pages and lets every page it caches rest
at -1.  So no cached page has a negative count exactly as long as no call has cached one.
A call that touches only pages that are cached before it caches none. -/
theorem page_counts_run {trace : List PageOp} (cached : start.Cached) (nonNegative : start.NonNegative)
    (run : Run PageStep start trace state) : (∀ index addr, state.pageAt index = some addr →
      state.countAt addr = if start.pageAt index = some addr then start.countAt addr else some (-1)) ∧
    (state.NonNegative ↔ ∀ index addr, state.pageAt index = some addr → start.pageAt index = some addr) ∧
    (∀ op after, PageStep state op after → (∀ index, op.Touches index → state.pageAt index ≠ none) →
      state.NonNegative → after.NonNegative) ∧
    (∀ op after, PageStep state op after → op.Transfers →
      (∀ index addr, state.pageAt index = some addr →
        after.pageAt index = some addr ∧ after.countAt addr = state.countAt addr) ∧
      ∀ index addr, after.pageAt index = some addr → state.pageAt index = none → after.countAt addr = some (-1)) ∧
    ∀ alloc prepare index addr held, index < 2 ^ 60 →
      (∀ page, alloc.page = some page → state.pageAt index = none → state.refsAt page = none) →
      state.obtainPage alloc prepare index = some (some addr, held) →
      held.countAt addr = some 0 ∧ state.pageAt index = none ∨
        state.pageAt index = some addr ∧ held.countAt addr = (state.countAt addr).map (· + 1) := by
  have since := page_run_since cached run
  refine ⟨since.counts, since.nonNegative_iff nonNegative, fun op after step hits counts => ?_,
    fun op after step transfers => ?_, ?_⟩
  · have old := (since.nonNegative_iff nonNegative).mp counts
    exact ((page_run_since cached (run.snoc step)).nonNegative_iff nonNegative).mpr
      fun index addr found => old index addr (step.pageAt_of_hits since.cached hits found)
  · obtain ⟨extension, -⟩ := step.extends transfers since.cached
    refine ⟨extension.kept, fun index addr found missing => ?_⟩
    rcases extension.added index addr found with before | ⟨-, -, -, count⟩
    · cases missing.symm.trans before
    · exact count
  · intro alloc prepare index addr held bounded unused obtained
    exact Filemap.countAt_held (Filemap.obtainPage_takes since.cached bounded unused obtained)

def emptyMapping : Filemap where
  hasMapping := true
  pageTree := radixTreeInit
  nrpages := 0
  iSize := 0
  pages := fun _ => none
  memory := fun _ _ => 0

def firstPage (index : Nat) : Allocation := ⟨some index, some index, fun _ => true⟩

theorem emptyMapping_cached : emptyMapping.Cached := by
  refine ⟨rfl, fun index addr found => ?_, fun addr count index found => ?_⟩
  · cases found
  · cases found

def oneByteRead : Filemap :=
  ((genericFileRead firstPage none emptyMapping 1 0).map FileResult.state).getD emptyMapping

theorem oneByteRead_step : PageStep emptyMapping (.read 0 1) oneByteRead := by
  have supplies : emptyMapping.Supplies firstPage := by
    refine ⟨fun _ _ _ _ => rfl, fun index other addr first second => ?_⟩
    exact Option.some.inj (first.trans second.symm)
  have reads : (genericFileRead firstPage none emptyMapping 1 0).map FileResult.result = some 1 := by
    decide +kernel
  obtain ⟨returned, done, success⟩ := Option.map_eq_some_iff.mp reads
  have state : oneByteRead = returned.state := by rw [oneByteRead, done, Option.map_some, Option.getD_some]
  rw [state]
  exact .read (by decide) supplies done (by omega)

theorem page_counts_run_one_byte : oneByteRead.countAt 0 = some (-1) ∧ ¬oneByteRead.NonNegative := by
  have run : Run PageStep emptyMapping [.read 0 1] oneByteRead := .snoc .nil oneByteRead_step
  obtain ⟨counts, exact, -⟩ := page_counts_run emptyMapping_cached nofun run
  have cached : oneByteRead.pageAt 0 = some 0 := by decide +kernel
  refine ⟨counts 0 0 cached, fun positive => ?_⟩
  cases exact.mp positive 0 0 cached

/-- The page of a byte that was read rests at -1. -/
theorem one_byte_read_negative :
    PageStep emptyMapping (.read 0 1) oneByteRead ∧ oneByteRead.pageAt 0 = some 0 ∧
      oneByteRead.countAt 0 = some (-1) :=
  ⟨oneByteRead_step, by decide +kernel, by decide +kernel⟩

end Rucix.Fs
