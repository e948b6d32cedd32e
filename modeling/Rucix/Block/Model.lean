import Mathlib.Tactic.Ring

namespace Rucix.Block

/-! The block layer: `kernel/drivers/block/blockdev.c`, the elevators of
`kernel/drivers/block/elevator.c`, the request function of
`kernel/drivers/block/ahci.c` and the ramdisk of `kernel/drivers/block/ramdisk.c`.

The bios that hang off a request by `next` are the list `bio` of the request, and
`tag` tells one submission of a bio from another.
-/

abbrev read : Nat := 0

abbrev write : Nat := 1

structure BioVec where
  page : Nat
  len : Nat
  offset : Nat
deriving DecidableEq

/-- `ioVec` is empty when `io_vec` is null. -/
structure Bio where
  tag : Nat
  sector : Nat
  size : Nat
  ioVec : List BioVec
  rw : Nat
  flags : Nat
deriving DecidableEq

structure Request where
  sector : Nat
  nrSectors : Nat
  buffer : Nat
  bio : List Bio
  flags : Nat
deriving DecidableEq

structure Store where
  disk : Nat → UInt8
  memory : Nat → UInt8

/-- A contiguous copy between device and memory. -/
structure Move where
  toDisk : Bool
  position : Nat
  buffer : Nat
  len : Nat
deriving DecidableEq

def Move.run (move : Move) (store : Store) : Store :=
  if move.toDisk then
    { store with disk := fun place =>
        if move.position ≤ place ∧ place < move.position + move.len then
          store.memory (move.buffer + (place - move.position)) else store.disk place }
  else
    { store with memory := fun place =>
        if move.buffer ≤ place ∧ place < move.buffer + move.len then
          store.disk (move.position + (place - move.buffer)) else store.memory place }

def vecMoves (toDisk : Bool) : (position : Nat) → List BioVec → List Move
  | _, [] => []
  | position, vec :: rest =>
    ⟨toDisk, position, vec.page + vec.offset, vec.len⟩ :: vecMoves toDisk (position + vec.len) rest

def Bio.moves (bio : Bio) : List Move := vecMoves (bio.rw = write) (bio.sector * 512) bio.ioVec

def runMoves (moves : List Move) (store : Store) : Store :=
  moves.foldl (fun store move => move.run store) store

def Request.move (request : Request) : Move :=
  ⟨request.flags = write, request.sector * 512, request.buffer, request.nrSectors * 512⟩

/-! Elevators. -/

inductive Elevator where
  | noop
  | deadline
deriving DecidableEq

/-- The merge functions of both elevators: a bio that starts where the request
ends joins it. -/
def mergeReq (request : Request) (bio : Bio) : Option Request :=
  if (request.sector + request.nrSectors) % 2 ^ 64 = bio.sector then
    some { request with
      bio := request.bio ++ [bio]
      nrSectors := (request.nrSectors + bio.size / 2 ^ 9) % 2 ^ 32 }
  else none

def noopMergeReq : Request → Bio → Option Request := mergeReq

def deadlineMergeReq : Request → Bio → Option Request := mergeReq

def Elevator.mergeFn : Elevator → Request → Bio → Option Request
  | .noop => noopMergeReq
  | .deadline => deadlineMergeReq

def noopAddReq (front : Bool) (request : Request) (queue : List Request) : List Request :=
  if front then request :: queue else queue ++ [request]

/-- Behind the requests that do not start later. -/
def insertSorted (request : Request) : List Request → List Request
  | [] => [request]
  | current :: rest =>
    if request.sector < current.sector then request :: current :: rest
    else current :: insertSorted request rest

def deadlineAddReq (front : Bool) (request : Request) (queue : List Request) : List Request :=
  if front then request :: queue else insertSorted request queue

def Elevator.addReqFn : Elevator → Bool → Request → List Request → List Request
  | .noop => noopAddReq
  | .deadline => deadlineAddReq

/-- The loop of `elv_merge_bio`: the queue with the bio merged into the first
request that takes it. -/
def mergeFirst (merge : Request → Bio → Option Request) (bio : Bio) : List Request → Option (List Request)
  | [] => none
  | request :: rest =>
    match merge request bio with
    | some merged => some (merged :: rest)
    | none => (mergeFirst merge bio rest).map (request :: ·)

/-- Which function `make_request_fn` points to. -/
inductive MakeRequest where
  | elevator
  | ramdisk
deriving DecidableEq

structure RequestQueue where
  elevator : Option Elevator
  queue : List Request
  makeRequestFn : Option MakeRequest
deriving DecidableEq

def elvMergeBio (q : RequestQueue) (bio : Bio) : Option RequestQueue :=
  q.elevator.bind fun elevator =>
    (mergeFirst elevator.mergeFn bio q.queue).map fun queue => { q with queue }

/-- Without an elevator the request is dropped. -/
def elvAddRequest (q : RequestQueue) (request : Request) (front : Bool) : RequestQueue :=
  match q.elevator with
  | none => q
  | some elevator => { q with queue := elevator.addReqFn front request q.queue }

def elvNextRequest (q : RequestQueue) : Option Request :=
  q.elevator.bind fun _ => q.queue.head?

def Bio.request (bio : Bio) : Request where
  sector := bio.sector
  nrSectors := bio.size / 512
  buffer := (bio.ioVec.head?.map (·.page)).getD 0
  bio := [bio]
  flags := bio.rw

/-- What `__make_request` does under the queue lock.  `alloc` is the success of
`blk_get_request`; the second component says whether `end_io` is called. -/
def makeRequest (q : RequestQueue) (bio : Bio) (alloc : Bool) : RequestQueue × Bool :=
  match elvMergeBio q bio with
  | some merged => (merged, false)
  | none =>
    if alloc then (elvAddRequest q bio.request false, false) else (q, true)

/-- One turn of the loop of `ahci_request`.  A disk without `hasPrivatedata` is
passed over, so its request stays.  No `end_io` is called. -/
def ahciTurn (hasPrivate : Bool) (q : RequestQueue) (store : Store) : RequestQueue × Store :=
  match elvNextRequest q with
  | none => (q, store)
  | some request =>
    if hasPrivate then ({ q with queue := q.queue.tail }, request.move.run store) else (q, store)

/-- A copy that would end behind the device is refused; 64-bit arithmetic. -/
def ramdiskMakeRequest (capacity : Nat) (bio : Bio) (store : Store) : Store :=
  let offset := bio.sector * 512 % 2 ^ 64
  if capacity * 512 % 2 ^ 64 < (offset + bio.size) % 2 ^ 64 then store
  else runMoves (vecMoves (bio.rw = write) offset bio.ioVec) store

structure Gendisk where
  queue : Option RequestQueue
  capacity : Nat
deriving DecidableEq

/-- `submit_bio`: the disk afterwards, the data afterwards, and how often `end_io`
was called. -/
def submitBio (disk : Option Gendisk) (bio : Bio) (alloc : Bool) (store : Store) :
    Option Gendisk × Store × Nat :=
  match disk with
  | none => (none, store, 1)
  | some gendisk =>
    match gendisk.queue with
    | none => (some gendisk, store, 1)
    | some q =>
      match q.makeRequestFn with
      | none => (some gendisk, store, 1)
      | some .ramdisk => (some gendisk, ramdiskMakeRequest gendisk.capacity bio store, 1)
      | some .elevator =>
        let (q, ended) := makeRequest q bio alloc
        (some { gendisk with queue := some q }, store, if ended then 1 else 0)

end Rucix.Block
