import Rucix.Lib.RadixTree.Model

namespace Rucix.Fs

open Rucix.Lib

/-! File contents in the page cache: `generic_file_read` and `generic_file_write`
of `kernel/fs/filemap.c` over `kernel/mm/page_cache.c`.

`memory` gives the bytes of each physical frame, whatever it held before it was
allocated.  The allocations that a call would make for a page index are a parameter.
-/

abbrev pageSize : Nat := 4096

abbrev PageData := Nat → UInt8

/-- `mapping` says whether `page->mapping` is set, which is then the mapping of the file. -/
structure Page where
  virtual : Nat
  count : Int
  dirty : Bool
  mapping : Bool
  index : Nat
deriving DecidableEq

structure Filemap where
  hasMapping : Bool
  pageTree : RadixTreeRoot Nat
  nrpages : Nat
  iSize : Nat
  pages : Nat → Option Page
  memory : Nat → PageData

/-- The results of `pmm_alloc_page`, `kmalloc` and `radix_tree_node_alloc`. -/
structure Allocation where
  frame : Option Nat
  page : Option Nat
  nodes : Nat → Bool

/-- What `readpage` puts into the page, and its result. -/
abbrev ReadPage := Option (Nat → PageData × Int)

def advance (pos bytes : Nat) : Nat := (pos + bytes) % 2 ^ 64

def chunkBytes (pos count : Nat) : Nat := min (pageSize - pos % pageSize) count

namespace Filemap

def setPage (state : Filemap) (addr : Nat) (page : Option Page) : Filemap :=
  { state with pages := Function.update state.pages addr page }

def adjust (state : Filemap) (addr : Nat) (change : Page → Page) : Filemap :=
  state.setPage addr ((state.pages addr).map change)

def setMemory (state : Filemap) (frame : Nat) (data : PageData) : Filemap :=
  { state with memory := Function.update state.memory frame data }

def getPage (state : Filemap) (addr : Nat) : Filemap :=
  state.adjust addr fun page => { page with count := page.count + 1 }

def putPage (state : Filemap) (addr : Nat) : Filemap :=
  state.adjust addr fun page => { page with count := page.count - 1 }

def setPageDirty (state : Filemap) (addr : Nat) : Filemap :=
  state.adjust addr fun page => { page with dirty := true }

def findGetPage (state : Filemap) (index : Nat) : Option Nat × Filemap :=
  match radixTreeLookup state.pageTree index with
  | none => (none, state)
  | some addr => (some addr, state.getPage addr)

def addToPageCache (nodes : Nat → Bool) (state : Filemap) (addr index : Nat) : Option (Bool × Filemap) :=
  (radixTreeInsert nodes 10 state.pageTree index addr).map fun (inserted, tree, _) =>
    if inserted then
      (true, { state.adjust addr fun page => { page with mapping := true, index } with
        pageTree := tree, nrpages := state.nrpages + 1 })
    else (false, { state with pageTree := tree })

/-- The page stays allocated. -/
def deleteFromPageCache (state : Filemap) (addr : Nat) : Filemap :=
  match state.pages addr with
  | none => state
  | some page =>
    if page.mapping then
      let (item, tree) := radixTreeDelete state.pageTree page.index
      let nrpages := if item.isSome then state.nrpages - 1 else state.nrpages
      ({ state with pageTree := tree, nrpages }.adjust addr fun page =>
        { page with mapping := false }).putPage addr
    else state

/-- The part of both loops that finds the page or makes a new one, which
`prepare` fills.  The page is `none` when the call returns -1. -/
def obtainPage (alloc : Allocation) (prepare : PageData → PageData × Bool) (state : Filemap)
    (index : Nat) : Option (Option Nat × Filemap) :=
  match state.findGetPage index with
  | (some addr, state) => some (some addr, state)
  | (none, state) =>
    match alloc.frame, alloc.page with
    | none, _ => some (none, state)
    | some _, none => some (none, state)
    | some frame, some addr =>
      let fresh : Page := { virtual := frame, count := 0, dirty := false, mapping := false, index := 0 }
      match (state.setPage addr (some fresh)).addToPageCache alloc.nodes addr index with
      | none => none
      | some (false, state) => some ((state.setPage addr none).findGetPage index)
      | some (true, state) =>
        let (data, filled) := prepare (state.memory frame)
        some (if filled then some addr else none, state.setMemory frame data)

end Filemap

def prepareRead (readpage : ReadPage) (index : Nat) (_ : PageData) : PageData × Bool :=
  match readpage with
  | some fill => ((fill index).1, (fill index).2 = 0)
  | none => (fun _ => 0, true)

/-- A page that is about to be overwritten as a whole is left as it is. -/
def prepareWrite (readpage : ReadPage) (index bytes : Nat) (old : PageData) : PageData × Bool :=
  if bytes < pageSize then
    match readpage with
    | some fill => ((fill index).1, true)
    | none => (fun _ => 0, true)
  else (old, true)

/-- How a loop ended: the bytes it moved, where it stopped, and whether the call
returns -1. -/
structure Transfer where
  failed : Bool
  moved : List UInt8
  pos : Nat
  state : Filemap

def readLoop (allocs : Nat → Allocation) (readpage : ReadPage) :
    (fuel : Nat) → Filemap → (pos count : Nat) → (moved : List UInt8) → Option Transfer
  | 0, state, pos, count, moved => if count = 0 then some ⟨false, moved, pos, state⟩ else none
  | fuel + 1, state, pos, count, moved =>
    if count = 0 then some ⟨false, moved, pos, state⟩
    else
      let index := pos / pageSize
      let bytes := chunkBytes pos count
      match state.obtainPage (allocs index) (prepareRead readpage index) index with
      | none => none
      | some (none, state) => some ⟨true, moved, pos, state⟩
      | some (some addr, state) =>
        match state.pages addr with
        | none => none
        | some page =>
          let chunk := (List.range bytes).map fun i => state.memory page.virtual (pos % pageSize + i)
          readLoop allocs readpage fuel (state.putPage addr) (advance pos bytes) (count - bytes)
            (moved ++ chunk)

/-- `memcpy` of a chunk into a page. -/
def overlay (data : PageData) (offset : Nat) (chunk : List UInt8) : PageData := fun place =>
  if offset ≤ place ∧ place < offset + chunk.length then chunk.getD (place - offset) 0 else data place

def Filemap.storeChunk (state : Filemap) (addr : Nat) (page : Page) (pos : Nat) (chunk : List UInt8) :
    Filemap :=
  let data := overlay (state.memory page.virtual) (pos % pageSize) chunk
  let state := (state.setMemory page.virtual data).setPageDirty addr
  let state := if state.iSize < advance pos chunk.length then
    { state with iSize := advance pos chunk.length } else state
  state.putPage addr

def writeLoop (allocs : Nat → Allocation) (readpage : ReadPage) :
    (fuel : Nat) → Filemap → (pos : Nat) → (buf moved : List UInt8) → Option Transfer
  | 0, state, pos, buf, moved => if buf = [] then some ⟨false, moved, pos, state⟩ else none
  | fuel + 1, state, pos, buf, moved =>
    if buf = [] then some ⟨false, moved, pos, state⟩
    else
      let index := pos / pageSize
      let bytes := chunkBytes pos buf.length
      match state.obtainPage (allocs index) (prepareWrite readpage index bytes) index with
      | none => none
      | some (none, state) => some ⟨true, moved, pos, state⟩
      | some (some addr, state) =>
        match state.pages addr with
        | none => none
        | some page =>
          let chunk := buf.take bytes
          writeLoop allocs readpage fuel (state.storeChunk addr page pos chunk) (advance pos bytes)
            (buf.drop bytes) (moved ++ chunk)

/-- The result of a call, what it left in `*ppos`, the bytes moved, and the state. -/
structure FileResult where
  result : Int
  ppos : Nat
  moved : List UInt8
  state : Filemap

/-- After a failure `*ppos` is as before. -/
def Transfer.finish (ppos : Nat) (transfer : Transfer) : FileResult :=
  if transfer.failed then ⟨-1, ppos, transfer.moved, transfer.state⟩
  else ⟨transfer.moved.length, transfer.pos, transfer.moved, transfer.state⟩

/-- A turn moves at least one byte, so `count` turns are enough. -/
def genericFileRead (allocs : Nat → Allocation) (readpage : ReadPage) (state : Filemap)
    (count : Int) (ppos : Nat) : Option FileResult :=
  if state.hasMapping then
    (readLoop allocs readpage count.toNat state ppos count.toNat []).map (Transfer.finish ppos)
  else some ⟨-1, ppos, [], state⟩

/-- `buf` holds the `count` bytes to be written. -/
def genericFileWrite (allocs : Nat → Allocation) (readpage : ReadPage) (state : Filemap)
    (buf : List UInt8) (ppos : Nat) : Option FileResult :=
  if state.hasMapping then
    (writeLoop allocs readpage buf.length state ppos buf []).map (Transfer.finish ppos)
  else some ⟨-1, ppos, [], state⟩

end Rucix.Fs
