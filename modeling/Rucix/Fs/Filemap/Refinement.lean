import Mathlib.Data.List.GetD
import Rucix.Fs.Filemap.Model
import Rucix.Lib.RadixTree.Map

namespace Rucix.Fs

open Rucix.Data Rucix.Lib Function List Filemap

/-! The page cache as a byte array that starts with zeros, read through the frames
of the cached pages.
-/

variable {state after : Filemap} {touched : Finset Nat} {alloc : Allocation} {index addr frame : Nat}
  {prepare : PageData → PageData × Bool}

namespace Filemap

def frameAt (state : Filemap) (addr : Nat) : Option Nat :=
  (state.pages addr).map (·.virtual)

def frameOf (state : Filemap) (index : Nat) : Option Nat :=
  (radixTreeLookup state.pageTree index).bind state.frameAt

def pageData (state : Filemap) (index : Nat) : Option PageData :=
  (state.frameOf index).map state.memory

def byteAt (state : Filemap) (place : Nat) : UInt8 :=
  ((state.pageData (place / pageSize)).getD fun _ => 0) (place % pageSize)

/-- Every cached page is allocated and has a frame of its own. -/
structure Backed (state : Filemap) (touched : Finset Nat) : Prop where
  valid : state.pageTree.Valid
  stored : ∀ index addr, radixTreeLookup state.pageTree index = some addr → state.frameAt addr ≠ none
  separate : ∀ index other frame, state.frameOf index = some frame → state.frameOf other = some frame →
    index = other
  member : ∀ index, index ∈ touched ↔ state.frameOf index ≠ none
  counted : state.nrpages = touched.card

theorem frameOf_congr (tree : after.pageTree = state.pageTree) (frames : after.frameAt = state.frameAt) :
    after.frameOf = state.frameOf := by
  funext index
  rw [frameOf, frameOf, tree, frames]

theorem pageData_congr (frames : after.frameOf = state.frameOf) (memory : after.memory = state.memory) :
    after.pageData = state.pageData := by
  funext index
  rw [pageData, pageData, frames, memory]

theorem byteAt_congr (frames : after.frameOf = state.frameOf) (memory : after.memory = state.memory) :
    after.byteAt = state.byteAt := by
  funext place
  rw [byteAt, byteAt, pageData_congr frames memory]

theorem frameAt_adjust (keeps : ∀ page, (change page).virtual = page.virtual) :
    (state.adjust addr change).frameAt = state.frameAt := by
  funext other
  by_cases here : other = addr
  · subst here
    simp [frameAt, adjust, setPage, comp_def, keeps]
  · simp [frameAt, adjust, setPage, here]

@[simp]
theorem frameAt_getPage : (state.getPage addr).frameAt = state.frameAt := frameAt_adjust fun _ => rfl

@[simp]
theorem frameAt_putPage : (state.putPage addr).frameAt = state.frameAt := frameAt_adjust fun _ => rfl

@[simp]
theorem frameAt_setPageDirty : (state.setPageDirty addr).frameAt = state.frameAt :=
  frameAt_adjust fun _ => rfl

theorem pages_adjust_none (empty : state.pages other = none) : (state.adjust addr change).pages other = none := by
  by_cases here : other = addr
  · subst here
    simp [adjust, setPage, empty]
  · simp [adjust, setPage, here, empty]

/-- The allocations for a page succeed with memory that the cache does not use. -/
def FreshAt (state : Filemap) (alloc : Allocation) : Prop :=
  ∃ frame addr, alloc.frame = some frame ∧ alloc.page = some addr ∧ (∀ call, alloc.nodes call = true) ∧
    state.pages addr = none ∧ ∀ index, state.frameOf index ≠ some frame

structure Obtained (alloc : Allocation) (prepare : PageData → PageData × Bool) (state : Filemap)
    (index addr : Nat) (after : Filemap) : Prop where
  frame : ∃ frame, after.frameAt addr = some frame ∧ after.frameOf index = some frame
  others : ∀ other, other ≠ index → after.pageData other = state.pageData other
  contents : after.pageData index = state.pageData index ∧ state.pageData index ≠ none ∨
    state.pageData index = none ∧ ∃ old, after.pageData index = some (prepare old).1
  size : after.iSize = state.iSize
  mapped : after.hasMapping = state.hasMapping
  pages : ∀ other, state.pages other = none → after.pages other = none ∨ alloc.page = some other
  frames : ∀ other frame, after.frameOf other = some frame →
    state.frameOf other = some frame ∨ alloc.frame = some frame

def withPage (state : Filemap) (tree : RadixTreeRoot Nat) (index addr frame : Nat) (data : PageData) :
    Filemap :=
  { state.setPage addr (some { virtual := frame, count := 0, dirty := false, mapping := true, index }) with
    pageTree := tree
    nrpages := state.nrpages + 1
    memory := update state.memory frame data }

theorem adjust_setPage (page : Page) :
    (state.setPage addr (some page)).adjust addr change = state.setPage addr (some (change page)) := by
  simp [adjust, setPage]

theorem obtainPage_inserted (absent : radixTreeLookup state.pageTree index = none)
    (frameGiven : alloc.frame = some frame) (pageGiven : alloc.page = some addr)
    (returned : radixTreeInsert alloc.nodes 10 state.pageTree index addr = some (true, tree, calls)) :
    state.obtainPage alloc prepare index =
      some (if (prepare (state.memory frame)).2 then some addr else none,
        state.withPage tree index addr frame (prepare (state.memory frame)).1) := by
  have inserted : radixTreeInsert alloc.nodes 10 (state.setPage addr (some
      { virtual := frame, count := 0, dirty := false, mapping := false, index := 0 })).pageTree index addr =
      some (true, tree, calls) := returned
  simp only [obtainPage, findGetPage, absent, frameGiven, pageGiven, addToPageCache, inserted,
    adjust_setPage]
  rfl

theorem Obtained.withPage {tree : RadixTreeRoot Nat} (frameGiven : alloc.frame = some frame)
    (pageGiven : alloc.page = some addr)
    (unheld : ∀ other, state.frameOf other ≠ some frame) (missing : state.frameOf index = none)
    (frames : ∀ other, (state.withPage tree index addr frame (prepare (state.memory frame)).1).frameOf other =
      if other = index then some frame else state.frameOf other) :
    Obtained alloc prepare state index addr
      (state.withPage tree index addr frame (prepare (state.memory frame)).1) := by
  refine ⟨⟨frame, by simp [frameAt, Filemap.withPage, setPage], by rw [frames, if_pos rfl]⟩,
    fun other different => ?_, .inr ⟨by rw [pageData, missing, Option.map_none], state.memory frame, ?_⟩,
    rfl, rfl, fun other empty => ?_, fun other held found => ?_⟩
  · rw [pageData, frames, if_neg different, pageData]
    cases held : state.frameOf other with
    | none => rfl
    | some place =>
      have apart : place ≠ frame := fun same => unheld other (same ▸ held)
      simp [Filemap.withPage, apart]
  · rw [pageData, frames]
    simp [Filemap.withPage]
  · by_cases here : other = addr
    · exact .inr (here ▸ pageGiven)
    · exact .inl (by simp [Filemap.withPage, setPage, here, empty])
  · rw [frames] at found
    split at found
    · cases found
      exact .inr frameGiven
    · exact .inl found

section

variable {tree : RadixTreeRoot Nat} {data : PageData} (backed : state.Backed touched)
include backed

theorem Backed.congr (tree : after.pageTree = state.pageTree)
    (frames : after.frameAt = state.frameAt) (pages : after.nrpages = state.nrpages) : after.Backed touched := by
  have same : after.frameOf = state.frameOf := frameOf_congr tree frames
  exact ⟨tree ▸ backed.valid, by rw [tree, frames]; exact backed.stored,
    by rw [same]; exact backed.separate, by rw [same]; exact backed.member, pages ▸ backed.counted⟩

theorem obtainPage_cached (cached : radixTreeLookup state.pageTree index = some addr) :
    state.obtainPage alloc prepare index = some (some addr, state.getPage addr) ∧
      (state.getPage addr).Backed (insert index touched) ∧
      Obtained alloc prepare state index addr (state.getPage addr) := by
  obtain ⟨frame, known⟩ := Option.ne_none_iff_exists'.mp (backed.stored index addr cached)
  have held : state.frameOf index = some frame := by rw [frameOf, cached, Option.bind_some, known]
  have member : index ∈ touched := (backed.member index).mpr (by simp [held])
  have sameFrames : (state.getPage addr).frameOf = state.frameOf := frameOf_congr rfl frameAt_getPage
  have sameData : (state.getPage addr).pageData = state.pageData := pageData_congr sameFrames rfl
  refine ⟨by simp only [obtainPage, findGetPage, cached], ?_, ?_⟩
  · rw [Finset.insert_eq_of_mem member]
    exact backed.congr rfl frameAt_getPage rfl
  · exact ⟨⟨frame, by rw [frameAt_getPage, known], by rw [sameFrames, held]⟩,
      fun other _ => by rw [sameData], .inl ⟨by rw [sameData], by simp [pageData, held]⟩, rfl, rfl,
      fun other empty => .inl (pages_adjust_none empty), fun other frame found => .inl (sameFrames ▸ found)⟩

section

variable (unused : state.pages addr = none)
  (lookups : ∀ other, radixTreeLookup tree other =
    if other = index then some addr else radixTreeLookup state.pageTree other)
include unused lookups

theorem frameOf_withPage (other : Nat) :
    (state.withPage tree index addr frame data).frameOf other =
      if other = index then some frame else state.frameOf other := by
  have view : (state.withPage tree index addr frame data).frameOf other = (radixTreeLookup tree other).bind
      (state.setPage addr (some
        { virtual := frame, count := 0, dirty := false, mapping := true, index })).frameAt := rfl
  rw [view, lookups]
  by_cases here : other = index
  · simp [here, frameAt, setPage]
  · rw [if_neg here, if_neg here, frameOf]
    cases found : radixTreeLookup state.pageTree other with
    | none => rfl
    | some place =>
      have different : place ≠ addr := by
        intro same
        exact backed.stored other place found (by simp [frameAt, same, unused])
      simp [frameAt, setPage, different]

theorem Backed.withPage (valid : tree.Valid) (unheld : ∀ other, state.frameOf other ≠ some frame)
    (absent : radixTreeLookup state.pageTree index = none) :
    (state.withPage tree index addr frame data).Backed (insert index touched) := by
  have frames : ∀ other, (state.withPage tree index addr frame data).frameOf other =
      if other = index then some frame else state.frameOf other := frameOf_withPage backed unused lookups
  refine ⟨valid, fun other place found => ?_, fun first second shared left right => ?_, fun other => ?_, ?_⟩
  · by_cases here : place = addr
    · simp [here, frameAt, Filemap.withPage, setPage]
    · have old : radixTreeLookup state.pageTree other = some place := by
        have found : radixTreeLookup tree other = some place := found
        rw [lookups] at found
        split at found
        · cases found
          exact absurd rfl here
        · exact found
      simpa [frameAt, Filemap.withPage, setPage, here] using backed.stored other place old
  · rw [frames] at left right
    split at left <;> split at right
    · rename_i firstHere secondHere
      rw [firstHere, secondHere]
    · cases left
      exact absurd right (unheld second)
    · cases right
      exact absurd left (unheld first)
    · exact backed.separate first second shared left right
  · rw [frames, Finset.mem_insert]
    by_cases here : other = index
    · simp [here]
    · simp only [here, false_or]
      exact backed.member other
  · have outside : index ∉ touched := by
      intro member
      exact (backed.member index).mp member (by rw [frameOf, absent, Option.bind_none])
    rw [Finset.card_insert_of_notMem outside, ← backed.counted]
    rfl

end

variable (bounded : index < 2 ^ 60) (fresh : state.FreshAt alloc) (filled : ∀ old, (prepare old).2 = true)
include bounded fresh filled

theorem obtainPage_new (absent : radixTreeLookup state.pageTree index = none) :
    ∃ addr after, state.obtainPage alloc prepare index = some (some addr, after) ∧
      after.Backed (insert index touched) ∧ Obtained alloc prepare state index addr after := by
  obtain ⟨frame, addr, frameGiven, pageGiven, nodes, unused, unheld⟩ := fresh
  obtain ⟨⟨inserted, tree, calls⟩, returned, spec⟩ :=
    radixTreeInsert_terminates backed.valid bounded addr
  have success : inserted = true := spec.success.mpr ⟨absent, fun call _ _ => nodes call⟩
  subst success
  have lookups : ∀ other, radixTreeLookup tree other =
      if other = index then some addr else radixTreeLookup state.pageTree other := by
    intro other
    simpa using spec.lookups other
  have missing : state.frameOf index = none := by rw [frameOf, absent, Option.bind_none]
  refine ⟨addr, state.withPage tree index addr frame (prepare (state.memory frame)).1, ?_,
    backed.withPage unused lookups spec.valid unheld absent,
    Obtained.withPage frameGiven pageGiven unheld missing (frameOf_withPage backed unused lookups)⟩
  rw [obtainPage_inserted absent frameGiven pageGiven returned, filled, if_pos rfl]

theorem obtainPage_spec :
    ∃ addr after, state.obtainPage alloc prepare index = some (some addr, after) ∧
      after.Backed (insert index touched) ∧ Obtained alloc prepare state index addr after := by
  cases cached : radixTreeLookup state.pageTree index with
  | none => exact obtainPage_new backed bounded fresh filled cached
  | some addr => exact ⟨addr, _, obtainPage_cached backed cached⟩

end

/-- The allocations for the pages from `first` up to position `stop` succeed and
hand out different memory. -/
structure Allocates (state : Filemap) (allocs : Nat → Allocation) (first stop : Nat) : Prop where
  fresh : ∀ index, first ≤ index → index * pageSize < stop → state.FreshAt (allocs index)
  distinct : ∀ index other, first ≤ index → index < other → other * pageSize < stop →
    (allocs index).frame ≠ (allocs other).frame ∧ (allocs index).page ≠ (allocs other).page

theorem Allocates.congr {allocs : Nat → Allocation} {first stop : Nat} (allocates : state.Allocates allocs first stop)
    (pages : ∀ addr, state.pages addr = none → after.pages addr = none) (frames : after.frameOf = state.frameOf) :
    after.Allocates allocs first stop := by
  refine ⟨fun index lower upper => ?_, allocates.distinct⟩
  obtain ⟨frame, addr, frameGiven, pageGiven, nodes, unused, unheld⟩ := allocates.fresh index lower upper
  exact ⟨frame, addr, frameGiven, pageGiven, nodes, pages addr unused, frames ▸ unheld⟩

theorem Obtained.allocates (obtained : Obtained (allocs index) prepare state index addr after)
    (allocates : state.Allocates allocs index stop) : after.Allocates allocs (index + 1) stop := by
  refine ⟨fun other lower upper => ?_, fun first second lower => allocates.distinct first second (by omega)⟩
  obtain ⟨frame, place, frameGiven, pageGiven, nodes, unused, unheld⟩ :=
    allocates.fresh other (by omega) upper
  obtain ⟨frameApart, pageApart⟩ := allocates.distinct index other (Nat.le_refl _) lower upper
  refine ⟨frame, place, frameGiven, pageGiven, nodes, ?_, fun third held => ?_⟩
  · rcases obtained.pages place unused with empty | taken
    · exact empty
    · exact absurd (taken.trans pageGiven.symm) pageApart
  · rcases obtained.frames third frame held with old | taken
    · exact unheld third old
    · exact frameApart (taken.trans frameGiven.symm)

theorem Obtained.page (obtained : Obtained alloc prepare state index addr after) :
    ∃ page, after.pages addr = some page ∧ after.frameOf index = some page.virtual := by
  obtain ⟨frame, known, held⟩ := obtained.frame
  obtain ⟨page, stored, rfl⟩ := Option.map_eq_some_iff.mp known
  exact ⟨page, stored, held⟩

end Filemap

section Chunks

variable {pos count place : Nat}

theorem chunkBytes_pos (more : count ≠ 0) : 0 < chunkBytes pos count := by
  have offset : pos % pageSize < pageSize := Nat.mod_lt _ (by decide)
  rw [chunkBytes]
  omega

theorem chunkBytes_le : chunkBytes pos count ≤ count := Nat.min_le_right ..

theorem chunkBytes_inside : pos % pageSize + chunkBytes pos count ≤ pageSize := by
  have offset : pos % pageSize < pageSize := Nat.mod_lt _ (by decide)
  rw [chunkBytes]
  omega

theorem chunk_place (within : place < chunkBytes pos count) :
    (pos + place) / pageSize = pos / pageSize ∧ (pos + place) % pageSize = pos % pageSize + place := by
  have inside : pos % pageSize + chunkBytes pos count ≤ pageSize := chunkBytes_inside
  simp only [pageSize] at inside ⊢
  omega

theorem chunk_next (more : chunkBytes pos count < count) :
    (pos + chunkBytes pos count) / pageSize = pos / pageSize + 1 := by
  have full : chunkBytes pos count = pageSize - pos % pageSize := by
    rw [chunkBytes] at more ⊢
    omega
  rw [full]
  simp only [pageSize]
  omega

def pagesOf (pos count : Nat) : Finset Nat :=
  (Finset.range count).image fun k => (pos + k) / pageSize

theorem pagesOf_chunk (more : count ≠ 0) : pagesOf pos count =
      insert (pos / pageSize) (pagesOf (pos + chunkBytes pos count) (count - chunkBytes pos count)) := by
  ext index
  simp only [pagesOf, Finset.mem_image, Finset.mem_range, Finset.mem_insert]
  constructor
  · intro ⟨k, inside, hit⟩
    rcases Nat.lt_or_ge k (chunkBytes pos count) with first | later
    · exact .inl (hit.symm.trans (chunk_place first).1)
    · refine .inr ⟨k - chunkBytes pos count, by omega, ?_⟩
      rw [← hit]
      congr 1
      omega
  · rintro (first | ⟨k, inside, hit⟩)
    · exact ⟨0, by omega, first.symm⟩
    · exact ⟨chunkBytes pos count + k, by omega, by rw [← hit, Nat.add_assoc]⟩

end Chunks

theorem advance_eq (bounded : pos + bytes < 2 ^ 64) : advance pos bytes = pos + bytes :=
  Nat.mod_eq_of_lt bounded

variable {allocs : Nat → Allocation} {pos count fuel : Nat}

theorem Filemap.Allocates.turn (available : state.Allocates allocs (pos / pageSize) (pos + count))
    (backed : state.Backed touched) (more : count ≠ 0) (bounded : pos + count < 2 ^ 64)
    (filled : ∀ old, (prepare old).2 = true) :
    ∃ addr middle page, state.obtainPage (allocs (pos / pageSize)) prepare (pos / pageSize) =
        some (some addr, middle) ∧ middle.pages addr = some page ∧
      middle.frameOf (pos / pageSize) = some page.virtual ∧
      middle.Backed (insert (pos / pageSize) touched) ∧
      Filemap.Obtained (allocs (pos / pageSize)) prepare state (pos / pageSize) addr middle := by
  have start : pos / pageSize * pageSize ≤ pos := Nat.div_mul_le_self ..
  have small : pos / pageSize < 2 ^ 60 := by
    simp only [pageSize]
    omega
  obtain ⟨addr, middle, got, kept, obtained⟩ := obtainPage_spec backed small
    (available.fresh _ (Nat.le_refl _) (by omega)) filled
  obtain ⟨page, stored, held⟩ := obtained.page
  exact ⟨addr, middle, page, got, stored, held, kept, obtained⟩

theorem Filemap.Obtained.next
    (obtained : Filemap.Obtained (allocs (pos / pageSize)) prepare state (pos / pageSize) addr middle)
    (available : state.Allocates allocs (pos / pageSize) (pos + count))
    (pages : ∀ addr, middle.pages addr = none → after.pages addr = none) (frames : after.frameOf = middle.frameOf)
    (more : count - chunkBytes pos count ≠ 0) :
    after.Allocates allocs ((pos + chunkBytes pos count) / pageSize)
      (pos + chunkBytes pos count + (count - chunkBytes pos count)) := by
  have total : pos + chunkBytes pos count + (count - chunkBytes pos count) = pos + count := by omega
  rw [chunk_next (by omega), total]
  exact (obtained.allocates available).congr pages frames

theorem Filemap.byteAt_of_frame (held : state.frameOf (place / pageSize) = some frame) :
    state.byteAt place = state.memory frame (place % pageSize) := by
  simp [byteAt, pageData, held]

/-- Reading makes missing pages of zeros, which is what they stood for. -/
theorem Filemap.Obtained.byteAt_read
    (obtained : Filemap.Obtained alloc (prepareRead none index) state index addr after) :
    after.byteAt = state.byteAt := by
  funext place
  by_cases here : place / pageSize = index
  · rcases obtained.contents with ⟨same, -⟩ | ⟨missing, old, zeros⟩
    · simp only [byteAt, here, same]
    · simp [byteAt, here, missing, zeros, prepareRead]
  · simp only [byteAt, obtained.others _ here]

theorem readLoop_spec (moved : List UInt8) (backed : state.Backed touched)
    (allocates : count ≠ 0 → state.Allocates allocs (pos / pageSize) (pos + count)) (bounded : pos + count < 2 ^ 64)
    (enough : count ≤ fuel) :
    ∃ after, readLoop allocs none fuel state pos count moved =
        some ⟨false, moved ++ (List.range count).map fun k => state.byteAt (pos + k), pos + count, after⟩ ∧
      after.Backed (touched ∪ pagesOf pos count) ∧ after.byteAt = state.byteAt ∧
      after.iSize = state.iSize ∧ after.hasMapping = state.hasMapping := by
  induction fuel generalizing state touched pos count moved with
  | zero =>
    obtain rfl : count = 0 := by omega
    exact ⟨state, by simp [readLoop], by simpa [pagesOf] using backed, rfl, rfl, rfl⟩
  | succ fuel ih =>
    by_cases done : count = 0
    · subst done
      exact ⟨state, by simp [readLoop], by simpa [pagesOf] using backed, rfl, rfl, rfl⟩
    · have available := allocates done
      obtain ⟨addr, middle, page, got, stored, held, kept, obtained⟩ : ∃ addr middle page,
          state.obtainPage (allocs (pos / pageSize)) (prepareRead none (pos / pageSize))
            (pos / pageSize) = some (some addr, middle) ∧ _ :=
        available.turn backed done bounded fun _ => rfl
      set bytes := chunkBytes pos count with isBytes
      have positive : 0 < bytes := chunkBytes_pos done
      have short : bytes ≤ count := chunkBytes_le
      have sameFrames : (middle.putPage addr).frameOf = middle.frameOf :=
        frameOf_congr rfl frameAt_putPage
      have sameBytes : (middle.putPage addr).byteAt = state.byteAt :=
        (byteAt_congr sameFrames rfl).trans obtained.byteAt_read
      have chunk : (List.range bytes).map (fun i => middle.memory page.virtual (pos % pageSize + i)) =
          (List.range bytes).map fun k => state.byteAt (pos + k) := by
        refine map_congr_left fun k member => ?_
        obtain ⟨samePage, offset⟩ := chunk_place (mem_range.mp member)
        rw [← obtained.byteAt_read, byteAt_of_frame (samePage ▸ held), offset]
      have remaining : (middle.putPage addr).Backed (insert (pos / pageSize) touched) :=
        kept.congr rfl frameAt_putPage rfl
      obtain ⟨final, looped, backedFinal, contents, size, mapped⟩ :=
        ih (moved ++ (List.range bytes).map fun k => state.byteAt (pos + k)) remaining
          (obtained.next available (fun _ => pages_adjust_none) sameFrames) (by omega) (by omega)
      refine ⟨final, ?_, ?_, contents.trans sameBytes, size.trans obtained.size, mapped.trans obtained.mapped⟩
      · simp only [readLoop, if_neg done, ← isBytes, got, stored, chunk]
        rw [advance_eq (by omega), looped]
        have split : List.range count = List.range bytes ++ (List.range (count - bytes)).map (bytes + ·) := by
          rw [← range_add]
          congr 1
          omega
        rw [split, sameBytes]
        simp only [← isBytes, map_append, map_map, append_assoc, comp_def, Nat.add_assoc, Nat.add_sub_cancel' short]
      · rw [pagesOf_chunk done, Finset.union_insert, ← Finset.insert_union]
        exact backedFinal

theorem overlay_nil : overlay data offset [] = data := by
  funext place
  rw [overlay, if_neg (by simp only [length_nil]; omega)]

theorem overlay_append (data : PageData) (offset : Nat) (chunk rest : List UInt8) :
    overlay (overlay data offset chunk) (offset + chunk.length) rest = overlay data offset (chunk ++ rest) := by
  funext place
  simp only [overlay, length_append]
  by_cases first : offset ≤ place ∧ place < offset + chunk.length
  · rw [if_neg (by omega), if_pos first, if_pos (by omega), getD_append _ _ _ _ (by omega)]
  · by_cases second : offset + chunk.length ≤ place ∧ place < offset + chunk.length + rest.length
    · rw [if_pos second, if_pos (by omega), getD_append_right _ _ _ _ (by omega)]
      congr 1
      omega
    · rw [if_neg second, if_neg first, if_neg (by omega)]

theorem Filemap.byteAt_setMemory (held : state.frameOf (place / pageSize) = some frame) :
    (state.setMemory frame data).byteAt place = data (place % pageSize) := by
  have kept : (state.setMemory frame data).frameOf (place / pageSize) = some frame := held
  rw [byteAt_of_frame kept]
  simp [setMemory]

theorem Filemap.Backed.byteAt_setMemory_ne (backed : state.Backed touched) (held : state.frameOf index = some frame)
    (different : place / pageSize ≠ index) : (state.setMemory frame data).byteAt place = state.byteAt place := by
  have same : (state.setMemory frame data).pageData (place / pageSize) = state.pageData (place / pageSize) := by
    have view : (state.setMemory frame data).frameOf (place / pageSize) =
        state.frameOf (place / pageSize) := rfl
    rw [pageData, pageData, view]
    cases found : state.frameOf (place / pageSize) with
    | none => rfl
    | some other =>
      have apart : other ≠ frame := by
        intro shared
        exact different (backed.separate _ _ _ (shared ▸ found) held)
      simp [setMemory, apart]
  rw [byteAt, byteAt, same]

/-- Outside of the bytes to be written, the page obtained for a write holds the bytes
of the file: it is zeroed unless it is overwritten as a whole. -/
theorem Filemap.Obtained.memory_outside
    (obtained : Filemap.Obtained alloc (prepareWrite none index bytes) state index addr middle)
    (held : middle.frameOf index = some frame) (here : place / pageSize = index) (partly : bytes < pageSize) :
    middle.memory frame (place % pageSize) = state.byteAt place := by
  have known : middle.pageData index = some (middle.memory frame) := by
    rw [pageData, held, Option.map_some]
  rcases obtained.contents with ⟨same, -⟩ | ⟨missing, before, filled⟩
  · rw [known] at same
    simp [byteAt, here, ← same]
  · have zeros := Option.some.inj (known.symm.trans filled)
    simp [byteAt, here, missing, zeros, prepareWrite, partly]

theorem Filemap.Obtained.overlay_write {page : Page}
    (obtained : Filemap.Obtained alloc (prepareWrite none (pos / pageSize) bytes) state (pos / pageSize)
      addr middle) (backed : middle.Backed touched) (held : middle.frameOf (pos / pageSize) = some page.virtual)
    (length : chunk.length = bytes) (inside : pos % pageSize + bytes ≤ pageSize) :
    (middle.setMemory page.virtual
      (overlay (middle.memory page.virtual) (pos % pageSize) chunk)).byteAt =
        overlay state.byteAt pos chunk := by
  funext place
  have position : pos / pageSize * pageSize + pos % pageSize = pos := Nat.div_add_mod' ..
  have offset : place % pageSize < pageSize := Nat.mod_lt _ (by decide)
  have location : place / pageSize * pageSize + place % pageSize = place := Nat.div_add_mod' ..
  by_cases here : place / pageSize = pos / pageSize
  · rw [byteAt_setMemory (here ▸ held), overlay, overlay]
    rw [here] at location
    by_cases covered : pos % pageSize ≤ place % pageSize ∧ place % pageSize < pos % pageSize + chunk.length
    · rw [if_pos covered, if_pos (by omega)]
      congr 1
      omega
    · rw [if_neg covered, if_neg (by omega), obtained.memory_outside held here (by omega)]
  · have apart : ¬(pos ≤ place ∧ place < pos + chunk.length) := by
      simp only [pageSize] at *
      omega
    have others : middle.byteAt place = state.byteAt place := by
      rw [byteAt, byteAt, obtained.others _ here]
    rw [overlay, if_neg apart, backed.byteAt_setMemory_ne held here, others]

structure Filemap.Stored (state : Filemap) (page : Page) (pos : Nat) (chunk : List UInt8) (after : Filemap) : Prop where
  pageTree : after.pageTree = state.pageTree
  nrpages : after.nrpages = state.nrpages
  hasMapping : after.hasMapping = state.hasMapping
  frameAt : after.frameAt = state.frameAt
  frameOf : after.frameOf = state.frameOf
  unused : ∀ other, state.pages other = none → after.pages other = none
  byteAt : after.byteAt =
    (state.setMemory page.virtual (overlay (state.memory page.virtual) (pos % pageSize) chunk)).byteAt
  iSize : after.iSize = if state.iSize < advance pos chunk.length then advance pos chunk.length else state.iSize

/-- The page is marked dirty and put back. -/
theorem Filemap.storeChunk_eq (pos : Nat) : state.storeChunk addr page pos chunk =
      { ((state.setMemory page.virtual (overlay (state.memory page.virtual) (pos % pageSize)
          chunk)).setPageDirty addr).putPage addr with
        iSize := if state.iSize < advance pos chunk.length then advance pos chunk.length else state.iSize } := by
  have same : ((state.setMemory page.virtual (overlay (state.memory page.virtual) (pos % pageSize)
      chunk)).setPageDirty addr).iSize = state.iSize := rfl
  simp only [storeChunk, same]
  split <;> rfl

theorem Filemap.storeChunk_stored (state : Filemap) (addr : Nat) (page : Page) (pos : Nat) (chunk : List UInt8) :
    Stored state page pos chunk (state.storeChunk addr page pos chunk) := by
  have frames : (state.storeChunk addr page pos chunk).frameAt = state.frameAt := by
    rw [storeChunk_eq]
    exact frameAt_putPage.trans frameAt_setPageDirty
  rw [storeChunk_eq] at *
  exact ⟨rfl, rfl, rfl, frames, frameOf_congr rfl frames, fun _ empty => pages_adjust_none (pages_adjust_none empty),
    byteAt_congr (frameOf_congr rfl frames) rfl, rfl⟩

def grownSize (size pos count : Nat) : Nat := if count = 0 then size else max size (pos + count)

theorem writeLoop_spec (moved : List UInt8) (backed : state.Backed touched)
    (allocates : buf.length ≠ 0 → state.Allocates allocs (pos / pageSize) (pos + buf.length))
    (bounded : pos + buf.length < 2 ^ 64) (enough : buf.length ≤ fuel) :
    ∃ after, writeLoop allocs none fuel state pos buf moved =
        some ⟨false, moved ++ buf, pos + buf.length, after⟩ ∧
      after.Backed (touched ∪ pagesOf pos buf.length) ∧ after.byteAt = overlay state.byteAt pos buf ∧
      after.iSize = grownSize state.iSize pos buf.length ∧ after.hasMapping = state.hasMapping := by
  induction fuel generalizing state touched pos buf moved with
  | zero =>
    obtain rfl : buf = [] := eq_nil_of_length_eq_zero (by omega)
    exact ⟨state, by simp [writeLoop], by simpa [pagesOf] using backed, overlay_nil.symm, rfl, rfl⟩
  | succ fuel ih =>
    by_cases done : buf = []
    · subst done
      exact ⟨state, by simp [writeLoop], by simpa [pagesOf] using backed, overlay_nil.symm, rfl, rfl⟩
    · have more : buf.length ≠ 0 := fun empty => done (eq_nil_of_length_eq_zero empty)
      have available := allocates more
      obtain ⟨addr, middle, page, got, found, held, kept, obtained⟩ : ∃ addr middle page,
          state.obtainPage (allocs (pos / pageSize))
            (prepareWrite none (pos / pageSize) (chunkBytes pos buf.length)) (pos / pageSize) =
              some (some addr, middle) ∧ _ :=
        available.turn backed more bounded fun old => by
          rw [prepareWrite]
          split <;> rfl
      set bytes := chunkBytes pos buf.length with isBytes
      have positive : 0 < bytes := chunkBytes_pos more
      have short : bytes ≤ buf.length := chunkBytes_le
      have length : (buf.take bytes).length = bytes := length_take_of_le short
      have rest : (buf.drop bytes).length = buf.length - bytes := length_drop
      have stored := middle.storeChunk_stored addr page pos (buf.take bytes)
      have later : (buf.drop bytes).length ≠ 0 → (middle.storeChunk addr page pos (buf.take bytes)).Allocates allocs
          ((pos + bytes) / pageSize) (pos + bytes + (buf.drop bytes).length) := by
        rw [rest]
        exact obtained.next available stored.unused stored.frameOf
      have whole : pos + bytes + (buf.drop bytes).length = pos + buf.length := by omega
      obtain ⟨final, looped, backedFinal, contents, size, mapped⟩ :=
        ih (moved ++ buf.take bytes) (kept.congr stored.pageTree stored.frameAt stored.nrpages) later
          (by omega) (by omega)
      refine ⟨final, ?_, ?_, ?_, ?_, ?_⟩
      · simp only [writeLoop, if_neg done, ← isBytes, got, found]
        rw [advance_eq (by omega), looped, whole, append_assoc, take_append_drop]
      · rw [pagesOf_chunk more, Finset.union_insert, ← Finset.insert_union, ← rest]
        exact backedFinal
      · have joined := overlay_append state.byteAt pos (buf.take bytes) (buf.drop bytes)
        rw [length, take_append_drop] at joined
        rw [contents, stored.byteAt, obtained.overlay_write kept held length chunkBytes_inside]
        exact joined
      · rw [size, stored.iSize, advance_eq (by omega), obtained.size]
        simp only [grownSize]
        split <;> split <;> omega
      · rw [mapped, stored.hasMapping, obtained.mapped]

end Rucix.Fs
