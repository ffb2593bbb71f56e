import QuorumDB.Lib.ByteFile
import QuorumDB.Storage.Page

/-!
The disk manager (`storage/disk_manager.cpp`). The backing file is a byte string;
failures of the stream itself are not modelled.
-/

namespace QuorumDB.Storage
open ByteFile

/-- `freeList` holds the last element of the vector first. -/
structure DiskManager where
  file : Bytes
  nextPageId : PageId
  freeList : List PageId
  numFlushes : Nat

theorem int32_lt_succ {number : Int32} (small : number ≠ Int32.maxValue) : number < number + 1 := by
  have top : number.toInt ≠ 2147483647 := fun same => small (Int32.toInt_inj.mp same)
  have high := number.toInt_lt
  have low := number.le_toInt
  have one : (1 : Int32).toInt = 1 := rfl
  rw [Int32.lt_iff_toInt_lt, Int32.toInt_add, one, Int.bmod_eq_of_le] <;> omega

namespace DiskManager

def openFile (file : Bytes) : DiskManager where
  file := file
  nextPageId := Int32.ofNat (file.length / pageSize)
  freeList := []
  numFlushes := 0

def offset (pageId : PageId) : Nat := pageId.toInt.toNat * pageSize

/-- The page as the file holds it, with zeros past the end of the file. -/
def stored (disk : DiskManager) (pageId : PageId) : Block where
  bytes := window disk.file (offset pageId) pageSize
  size := window_length _ _ _

def readPage (disk : DiskManager) (pageId : PageId) : Except StorageError Block :=
  if pageId < 0 then .error .pageRead
  else if disk.file.length ≤ offset pageId then .ok Block.zero
  else .ok (disk.stored pageId)

def writePage (disk : DiskManager) (pageId : PageId) (block : Block) : Except StorageError DiskManager :=
  if pageId < 0 then .error .pageWrite
  else .ok { disk with
    file := splice disk.file (offset pageId) block.bytes
    numFlushes := disk.numFlushes + 1 }

def allocatePage (disk : DiskManager) : Except StorageError (PageId × DiskManager) :=
  match disk.freeList with
  | pageId :: rest => .ok (pageId, { disk with freeList := rest })
  | [] =>
      if disk.nextPageId = Int32.maxValue then .error .pageIdLimit
      else .ok (disk.nextPageId, { disk with nextPageId := disk.nextPageId + 1 })

def deallocatePage (disk : DiskManager) (pageId : PageId) : DiskManager :=
  if pageId < 0 then disk else { disk with freeList := pageId :: disk.freeList }

theorem stored_past {disk : DiskManager} {pageId : PageId} (past : disk.file.length ≤ offset pageId) :
    disk.stored pageId = Block.zero := by
  apply Block.ext
  change window disk.file (offset pageId) pageSize = List.replicate pageSize 0
  unfold window
  rw [List.drop_of_length_le past, List.take_nil, List.nil_append, Nat.sub_eq_zero_of_le past]
  rfl

theorem readPage_eq {disk : DiskManager} {pageId : PageId} (valid : 0 ≤ pageId) :
    disk.readPage pageId = .ok (disk.stored pageId) := by
  unfold readPage
  rw [if_neg (Int32.not_lt.mpr valid)]
  by_cases past : disk.file.length ≤ offset pageId
  · rw [if_pos past, stored_past past]
  · rw [if_neg past]

theorem offset_apart {first second : PageId} (validFirst : 0 ≤ first) (validSecond : 0 ≤ second)
    (different : first ≠ second) :
    offset first + pageSize ≤ offset second ∨ offset second + pageSize ≤ offset first := by
  rw [Int32.le_iff_toInt_le] at validFirst validSecond
  have apart : first.toInt ≠ second.toInt := fun same => different (Int32.toInt_inj.mp same)
  have zero : (0 : Int32).toInt = 0 := rfl
  unfold offset pageSize
  omega

theorem writePage_eq {disk : DiskManager} {pageId : PageId} (block : Block) (valid : 0 ≤ pageId) :
    ∃ later, disk.writePage pageId block = .ok later ∧ later.nextPageId = disk.nextPageId ∧
      later.freeList = disk.freeList ∧ later.stored pageId = block ∧
      ∀ other, 0 ≤ other → other ≠ pageId → later.stored other = disk.stored other := by
  refine ⟨_, if_neg (Int32.not_lt.mpr valid), rfl, rfl, ?_, ?_⟩
  · apply Block.ext
    have same := window_splice_same disk.file (offset pageId) block.bytes
    rw [block.size] at same
    exact same
  · intro other otherValid different
    apply Block.ext
    have apart := offset_apart otherValid valid different
    exact window_splice_other (by rw [block.size]; exact apart)

end DiskManager

end QuorumDB.Storage
