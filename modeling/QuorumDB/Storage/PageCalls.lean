import QuorumDB.Lib.Program
import QuorumDB.Storage.BufferPool
import QuorumDB.Storage.Node

/-!
The calls the tree makes on the pages: the page helpers of `storage/bplus_tree.cpp` over
the buffer pool, and the root identifier the tree keeps.
-/

namespace QuorumDB.Storage
open BufferedDisk Program

namespace Access

def bind {First Second : Type} (first : Access First) (next : First → Access Second) : Access Second :=
  fun storage =>
    match first storage with
    | (.error error, left) => (.error error, left)
    | (.ok value, left) => next value left

instance : Monad Access where
  pure value := fun storage => (.ok value, storage)
  bind := bind

def throwing {Result : Type} (error : StorageError) : Access Result := fun storage => (.error error, storage)

def ofExcept {Result : Type} (result : Except StorageError Result) : Access Result := fun storage => (result, storage)

def getData (index : Nat) : Access Block := fun storage => (.ok (storage.pool.frame index).block, storage)

def readNode (pageId : PageId) : Access BPlusTreeNode := do
  match ← fetchPage pageId with
  | none => throwing .noEvictableFrame
  | some page =>
      let node ← ofExcept (deserializeNode (← getData page))
      let _ ← unpinPage pageId false
      return node

def writeNode (node : BPlusTreeNode) : Access Unit := do
  match ← fetchPage node.pageId with
  | none => throwing .noEvictableFrame
  | some page =>
      setBlock page (← ofExcept (serializeNode node))
      let _ ← unpinPage node.pageId true

def createNode (node : BPlusTreeNode) : Access PageId := do
  match ← newPage with
  | none => throwing .noFreeFrame
  | some (pageId, page) =>
      setBlock page (← ofExcept (serializeNode { node with pageId := pageId }))
      let _ ← unpinPage pageId true
      return pageId

end Access

/-- The storage and the tree's `root_page_id_`. -/
structure TreeStore where
  storage : BufferedDisk
  rootPageId : PageId

inductive PageCall where
  | rootPageId
  | setRootPageId (pageId : PageId)
  | readNode (pageId : PageId)
  | writeNode (node : BPlusTreeNode)
  | createNode (node : BPlusTreeNode)
  | deletePage (pageId : PageId)

@[reducible] def PageCall.Answer : PageCall → Type
  | .rootPageId => PageId
  | .setRootPageId _ => Unit
  | .readNode _ => BPlusTreeNode
  | .writeNode _ => Unit
  | .createNode _ => PageId
  | .deletePage _ => Bool

abbrev PageProg (Result : Type) : Type := Prog PageCall PageCall.Answer StorageError Result

namespace TreeStore

def accessing {Result : Type} (access : Access Result) (store : TreeStore) :
    Option (Except StorageError Result × TreeStore) :=
  some ((access store.storage).1, ⟨(access store.storage).2, store.rootPageId⟩)

def handler : Handler PageCall PageCall.Answer StorageError TreeStore
  | .rootPageId => fun store => some (.ok store.rootPageId, store)
  | .setRootPageId pageId => fun store => some (.ok (), ⟨store.storage, pageId⟩)
  | .readNode pageId => accessing (Access.readNode pageId)
  | .writeNode node => accessing (Access.writeNode node)
  | .createNode node => accessing (Access.createNode node)
  | .deletePage pageId => accessing (BufferedDisk.deletePage pageId)

end TreeStore

end QuorumDB.Storage
