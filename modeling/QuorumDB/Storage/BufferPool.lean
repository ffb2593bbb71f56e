import QuorumDB.Storage.DiskManager
import Mathlib.Logic.Function.Basic

/-!
The buffer pool (`storage/buffer_pool_manager.cpp`) over its disk manager. A page
pointer is the index of the frame it points into.
-/

namespace QuorumDB.Storage

structure Frame where
  block : Block
  pageId : PageId
  pinCount : Nat
  isDirty : Bool

def Frame.fresh : Frame := ⟨Block.zero, invalidPageId, 0, false⟩

/-- `freeFrames` holds the last element of the vector first. `lruPositions` says which
frames have a list position, the others being at `lru_.end()`. -/
structure BufferPoolManager where
  frames : List Frame
  pageTable : List (PageId × Nat)
  freeFrames : List Nat
  lru : List Nat
  lruPositions : Nat → Bool

/-- A pool and the disk manager behind it. -/
structure BufferedDisk where
  pool : BufferPoolManager
  disk : DiskManager

/-- What an operation returns or throws, and the state it leaves behind in either case. -/
abbrev Access (α : Type) : Type := BufferedDisk → Except StorageError α × BufferedDisk

namespace BufferPoolManager

def new (poolSize : Nat) : BufferPoolManager where
  frames := List.replicate poolSize Frame.fresh
  pageTable := []
  freeFrames := List.range poolSize
  lru := []
  lruPositions := fun _ => false

def find (pool : BufferPoolManager) (pageId : PageId) : Option Nat :=
  (pool.pageTable.find? fun entry => entry.1 = pageId).map Prod.snd

def frame (pool : BufferPoolManager) (index : Nat) : Frame := pool.frames.getD index Frame.fresh

def setFrame (pool : BufferPoolManager) (index : Nat) (frame : Frame) : BufferPoolManager :=
  { pool with frames := pool.frames.set index frame }

/-- `emplace` keeps an entry that is already there. -/
def emplace (pool : BufferPoolManager) (pageId : PageId) (index : Nat) : BufferPoolManager :=
  if (pool.find pageId).isSome then pool
  else { pool with pageTable := (pageId, index) :: pool.pageTable }

def erase (pool : BufferPoolManager) (pageId : PageId) : BufferPoolManager :=
  { pool with pageTable := pool.pageTable.filter fun entry => entry.1 ≠ pageId }

def addToLru (pool : BufferPoolManager) (index : Nat) : BufferPoolManager :=
  if pool.lruPositions index then pool
  else { pool with
    lru := index :: pool.lru
    lruPositions := Function.update pool.lruPositions index true }

def removeFromLru (pool : BufferPoolManager) (index : Nat) : BufferPoolManager :=
  if pool.lruPositions index then { pool with
    lru := pool.lru.erase index
    lruPositions := Function.update pool.lruPositions index false }
  else pool

def resetFrame (pool : BufferPoolManager) (index : Nat) : BufferPoolManager :=
  pool.setFrame index Frame.fresh

/-- The branch of FetchPage for a page that has a frame. -/
def pin (pool : BufferPoolManager) (index : Nat) : BufferPoolManager :=
  let pool := if (pool.frame index).pinCount = 0 then pool.removeFromLru index else pool
  pool.setFrame index { pool.frame index with pinCount := (pool.frame index).pinCount + 1 }

/-- The page put into a frame that AcquireFrame returned. -/
def install (pool : BufferPoolManager) (index : Nat) (pageId : PageId) (block : Block) : BufferPoolManager :=
  (pool.setFrame index ⟨block, pageId, 1, false⟩).emplace pageId index

def setBlock (pool : BufferPoolManager) (index : Nat) (block : Block) : BufferPoolManager :=
  pool.setFrame index { pool.frame index with block := block }

def unpinPage (pool : BufferPoolManager) (pageId : PageId) (isDirty : Bool) : BufferPoolManager × Bool :=
  match pool.find pageId with
  | none => (pool, false)
  | some index =>
      if (pool.frame index).pinCount = 0 then (pool, false)
      else
        let lowered := pool.setFrame index { pool.frame index with
          pinCount := (pool.frame index).pinCount - 1
          isDirty := (pool.frame index).isDirty || isDirty }
        (if (pool.frame index).pinCount = 1 then lowered.addToLru index else lowered, true)

end BufferPoolManager

namespace BufferedDisk

def withPool (storage : BufferedDisk) (pool : BufferPoolManager) : BufferedDisk := { storage with pool := pool }

def withDisk (storage : BufferedDisk) (disk : DiskManager) : BufferedDisk := { storage with disk := disk }

def removeFromLru (storage : BufferedDisk) (index : Nat) : BufferedDisk :=
  storage.withPool (storage.pool.removeFromLru index)

/-- The page leaves the table and its frame is reset. -/
def discard (storage : BufferedDisk) (index : Nat) (pageId : PageId) : BufferedDisk :=
  storage.withPool ((storage.pool.erase pageId).resetFrame index)

/-- The end of AcquireFrame for the frame of the last page in the LRU list. -/
def evict (index : Nat) : Access Nat := fun storage =>
  if (storage.pool.frame index).isDirty then
    match storage.disk.writePage (storage.pool.frame index).pageId (storage.pool.frame index).block with
    | .error error => (.error error, storage.removeFromLru index)
    | .ok disk =>
        (.ok index, ((storage.removeFromLru index).withDisk disk).discard index (storage.pool.frame index).pageId)
  else (.ok index, (storage.removeFromLru index).discard index (storage.pool.frame index).pageId)

/-- The index `frames.length` says that no frame can be had. -/
def acquireFrame : Access Nat := fun storage =>
  match storage.pool.freeFrames with
  | index :: rest => (.ok index, storage.withPool { storage.pool with freeFrames := rest })
  | [] =>
      match storage.pool.lru.getLast? with
      | none => (.ok storage.pool.frames.length, storage)
      | some index => evict index storage

def fetchPage (pageId : PageId) : Access (Option Nat) := fun storage =>
  if pageId = invalidPageId then (.ok none, storage)
  else
    match storage.pool.find pageId with
    | some index => (.ok (some index), storage.withPool (storage.pool.pin index))
    | none =>
        match acquireFrame storage with
        | (.error error, left) => (.error error, left)
        | (.ok index, left) =>
            if index = left.pool.frames.length then (.ok none, left)
            else
              match left.disk.readPage pageId with
              | .error error => (.error error, left)
              | .ok block => (.ok (some index), left.withPool (left.pool.install index pageId block))

def newPage : Access (Option (PageId × Nat)) := fun storage =>
  match acquireFrame storage with
  | (.error error, left) => (.error error, left)
  | (.ok index, left) =>
      if index = left.pool.frames.length then (.ok none, left)
      else
        match left.disk.allocatePage with
        | .error error => (.error error, left)
        | .ok (pageId, disk) =>
            (.ok (some (pageId, index)), ⟨left.pool.install index pageId Block.zero, disk⟩)

def unpinPage (pageId : PageId) (isDirty : Bool) : Access Bool := fun storage =>
  (.ok (storage.pool.unpinPage pageId isDirty).2, storage.withPool (storage.pool.unpinPage pageId isDirty).1)

def setBlock (index : Nat) (block : Block) : Access Unit := fun storage =>
  (.ok (), storage.withPool (storage.pool.setBlock index block))

def flushPage (pageId : PageId) : Access Bool := fun storage =>
  match storage.pool.find pageId with
  | none => (.ok false, storage)
  | some index =>
      if (storage.pool.frame index).isDirty then
        match storage.disk.writePage pageId (storage.pool.frame index).block with
        | .error error => (.error error, storage)
        | .ok disk =>
            (.ok true, ⟨storage.pool.setFrame index { storage.pool.frame index with isDirty := false }, disk⟩)
      else (.ok true, storage)

/-- The loop of FlushAllPages over the keys of the page table. -/
def flushPages : List PageId → Access Unit
  | [] => fun storage => (.ok (), storage)
  | pageId :: rest => fun storage =>
      match flushPage pageId storage with
      | (.error error, left) => (.error error, left)
      | (.ok _, left) => flushPages rest left

def flushAllPages : Access Unit := fun storage => flushPages (storage.pool.pageTable.map Prod.fst) storage

def deletePage (pageId : PageId) : Access Bool := fun storage =>
  match storage.pool.find pageId with
  | none => (.ok true, storage.withDisk (storage.disk.deallocatePage pageId))
  | some index =>
      if (storage.pool.frame index).pinCount ≠ 0 then (.ok false, storage)
      else
        let pool := (storage.pool.removeFromLru index).resetFrame index
        (.ok true, ⟨{ pool with freeFrames := index :: pool.freeFrames }.erase pageId,
          storage.disk.deallocatePage pageId⟩)

end BufferedDisk

end QuorumDB.Storage
