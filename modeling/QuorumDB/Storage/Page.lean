import QuorumDB.Lib.Bytes
import Mathlib.Order.Defs.LinearOrder

/-! Page identifiers, page contents and the errors of the storage layer (`storage/page.h`). -/

namespace QuorumDB.Storage

abbrev PageId := Int32
abbrev Key := Int64
abbrev Value := Int64

def pageSize : Nat := 4096
def invalidPageId : PageId := -1

instance int64LinearOrder : LinearOrder Int64 where
  le_refl a := Int64.le_refl a
  le_trans a b c := Int64.le_trans
  le_antisymm a b := Int64.le_antisymm
  le_total a b := Int64.le_total a b
  lt_iff_le_not_ge a b := by
    rw [Int64.not_le, Int64.lt_iff_toInt_lt, Int64.le_iff_toInt_le]
    omega
  toDecidableLE := inferInstance
  toDecidableEq := inferInstance
  toDecidableLT := inferInstance

/-- The errors the storage code throws, and the two outcomes of the model that are none of
its own: an access outside a vector, and a loop still running when its rounds are used up. -/
inductive StorageError where
  | pageRead
  | pageWrite
  | pageIdLimit
  | noEvictableFrame
  | noFreeFrame
  | invalidNode
  | invalidNodePage
  | invalidKeyCount
  | recordImage
  | outOfRange
  | unfinished
  deriving DecidableEq, Repr

structure Block where
  bytes : Bytes
  size : bytes.length = pageSize
  deriving DecidableEq

namespace Block

@[ext] theorem ext {first second : Block} (same : first.bytes = second.bytes) : first = second := by
  cases first
  cases second
  cases same
  rfl

/-- `ResetMemory`. -/
def zero : Block := ⟨List.replicate pageSize 0, List.length_replicate⟩

/-- The block whose first bytes are `bytes`; writing stops at the end of the page. -/
def write (block : Block) (bytes : Bytes) : Block where
  bytes := (bytes ++ block.bytes.drop bytes.length).take pageSize
  size := by
    have whole := block.size
    rw [List.length_take, List.length_append, List.length_drop]
    omega

theorem write_bytes {block : Block} {bytes : Bytes} (fits : bytes.length ≤ pageSize) :
    (block.write bytes).bytes = bytes ++ block.bytes.drop bytes.length := by
  have whole := block.size
  apply List.take_of_length_le
  rw [List.length_append, List.length_drop]
  omega

end Block

end QuorumDB.Storage
