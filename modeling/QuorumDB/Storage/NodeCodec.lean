import QuorumDB.Lib.Cursor
import QuorumDB.Storage.Node

/-!
The codec of B+ tree nodes with its page and offsets (the head of `storage/bplus_tree.cpp`).
Whatever a page holds, it is refused or reads as a node that can be written and read again.
-/

namespace QuorumDB.Storage
open LittleEndian Cursor

namespace Buffered

/-- The writes of SerializeNode after ResetMemory. -/
def nodeWrites (node : BPlusTreeNode) : List Bytes :=
  [uint32Bytes nodeMagic, [if node.isLeaf then 1 else 0], int32Bytes node.pageId, int32Bytes node.parentId,
    int32Bytes node.nextLeaf, uint32Bytes (UInt32.ofNat node.keys.length)] ++ node.keys.map int64Bytes ++
    if node.isLeaf then node.values.map int64Bytes else node.children.map int32Bytes

def serializeNode (node : BPlusTreeNode) : Option (Except StorageError Bytes) :=
  if node.Serializable then (fill pageSize (nodeWrites node)).map .ok else some (.error .invalidNode)

def readNode (data : Bytes) : Reader (Except StorageError BPlusTreeNode) := do
  let magic ← loadAs 4 readUInt32 data
  if magic ≠ nodeMagic then return .error .invalidNodePage
  let leafByte ← loadAs 1 (readValue 1) data
  let pageId ← loadAs 4 readInt32 data
  let parentId ← loadAs 4 readInt32 data
  let nextLeaf ← loadAs 4 readInt32 data
  let keyCount ← loadAs 4 readUInt32 data
  if keyCount.toNat > maxKeys then return .error .invalidKeyCount
  let keys ← loadMany (loadAs 8 readInt64 data) keyCount.toNat
  if leafByte ≠ 0 then
    let values ← loadMany (loadAs 8 readInt64 data) keyCount.toNat
    return .ok ⟨true, pageId, parentId, keys, values, [], nextLeaf⟩
  else
    let children ← loadMany (loadAs 4 readInt32 data) (keyCount.toNat + 1)
    return .ok ⟨false, pageId, parentId, keys, [], children, nextLeaf⟩

def deserializeNode (data : Bytes) : Option (Except StorageError BPlusTreeNode) := (readNode data).run' 0

theorem nodeWrites_flatten (node : BPlusTreeNode) : (nodeWrites node).flatten = node.header ++ node.payload := by
  unfold nodeWrites BPlusTreeNode.header BPlusTreeNode.payload
  cases node.isLeaf with
  | true => simp [List.flatMap]
  | false => simp [List.flatMap]

theorem deserializeNode_eq (page : Block) :
    deserializeNode page.bytes = some (Storage.deserializeNode page) := by
  have whole := page.size
  unfold pageSize at whole
  unfold deserializeNode readNode Storage.deserializeNode deserializeBody
  simp (disch := omega) only [StateT.run'_eq, StateT.run_bind, loadAs_run fixed_readUInt32,
    Option.bind_eq_bind, Option.bind_some, Nat.zero_add, List.drop_zero]
  by_cases magic : (readUInt32 page.bytes).1 ≠ nodeMagic
  · rw [if_pos magic, if_pos magic]
    rfl
  · rw [if_neg magic, if_neg magic]
    simp (disch := omega) only [StateT.run_bind, loadAs_run fixed_readUInt32, loadAs_run (fixed_readValue 1),
      loadAs_run fixed_readInt32, Option.bind_eq_bind, Option.bind_some, fixed_readUInt32.rest, fixed_readInt32.rest,
      (fixed_readValue 1).rest, List.drop_drop, Nat.reduceAdd]
    generalize (readUInt32 (page.bytes.drop 17)).1.toNat = keyCount
    by_cases many : keyCount > maxKeys
    · rw [if_pos many, if_pos many]
      rfl
    · rw [if_neg many, if_neg many]
      unfold maxKeys at many
      simp (disch := omega) only [StateT.run_bind, loadMany_run fixed_readInt64, Option.bind_eq_bind, Option.bind_some, readMany_fixed fixed_readInt64, List.drop_drop]
      by_cases leaf : (readValue 1 (page.bytes.drop 4)).1 ≠ 0
      · rw [if_pos leaf, if_pos leaf]
        simp (disch := omega) only [StateT.run_bind, loadMany_run fixed_readInt64, Option.bind_eq_bind, Option.bind_some]
        rfl
      · rw [if_neg leaf, if_neg leaf]
        simp (disch := omega) only [StateT.run_bind, loadMany_run fixed_readInt32, Option.bind_eq_bind, Option.bind_some]
        rfl

theorem serializeNode_eq (node : BPlusTreeNode) :
    serializeNode node = some ((Storage.serializeNode node).map Block.bytes) := by
  unfold serializeNode Storage.serializeNode
  by_cases accepted : node.Serializable
  · have blank : Block.zero.bytes.drop (node.header ++ node.payload).length =
        List.replicate (pageSize - (node.header ++ node.payload).length) 0 := List.drop_replicate
    rw [if_pos accepted, if_pos accepted, fill_eq, nodeWrites_flatten, if_pos accepted.short, Except.map,
      Block.write_bytes accepted.short, blank]
    rfl
  · rw [if_neg accepted, if_neg accepted]
    rfl

end Buffered

section Exact

theorem deserializeNode_fits {page : Block} {node : BPlusTreeNode} (read : deserializeNode page = .ok node) :
    node.Fits := by
  unfold deserializeNode deserializeBody at read
  simp only at read
  split_ifs at read with magic many leaf
  · obtain rfl := Except.ok.inj read
    apply BPlusTreeNode.Fits.mk
    · rw [readMany_length]
      exact Nat.le_of_not_lt many
    · intro _
      exact ⟨by rw [readMany_length, readMany_length], rfl⟩
    · intro inner
      cases inner
  · obtain rfl := Except.ok.inj read
    apply BPlusTreeNode.Fits.mk
    · rw [readMany_length]
      exact Nat.le_of_not_lt many
    · intro leaf
      cases leaf
    · intro _
      exact ⟨by rw [readMany_length, readMany_length], rfl⟩

/-- An accepted node reads back from its page, any page is refused or holds a node that reads
back, and every access is inside the page. -/
theorem node_codec (node : BPlusTreeNode) (page : Block) :
    (node.Serializable → (node.isLeaf = true → node.children = []) → (node.isLeaf = false → node.values = []) →
      ∃ written, serializeNode node = .ok written ∧ Buffered.serializeNode node = some (.ok written.bytes) ∧
        deserializeNode written = .ok node) ∧
    Buffered.deserializeNode page.bytes = some (deserializeNode page) ∧
    ∀ read, deserializeNode page = .ok read →
      ∃ written, serializeNode read = .ok written ∧ deserializeNode written = .ok read := by
  refine ⟨fun accepted leaf inner => ?_, Buffered.deserializeNode_eq page, fun read found => ?_⟩
  · have fits := accepted.fits leaf inner
    have written := serializeNode_eq fits
    have buffered := Buffered.serializeNode_eq node
    rw [written] at buffered
    exact ⟨_, written, buffered, deserializeNode_nodePage fits⟩
  · have fits := deserializeNode_fits found
    exact ⟨_, serializeNode_eq fits, deserializeNode_nodePage fits⟩

/-- A leaf with one key, written, read, and written again. -/
theorem node_codec_leaf : ∃ written again, serializeNode ⟨true, 3, -1, [7], [9], [], -1⟩ = .ok written ∧
    Buffered.serializeNode ⟨true, 3, -1, [7], [9], [], -1⟩ = some (.ok written.bytes) ∧
    deserializeNode written = .ok ⟨true, 3, -1, [7], [9], [], -1⟩ ∧
    Buffered.deserializeNode written.bytes = some (.ok ⟨true, 3, -1, [7], [9], [], -1⟩) ∧
    serializeNode ⟨true, 3, -1, [7], [9], [], -1⟩ = .ok again ∧ deserializeNode again = .ok ⟨true, 3, -1, [7], [9], [], -1⟩ := by
  obtain ⟨written, wrote, buffered, read⟩ :=
    (node_codec ⟨true, 3, -1, [7], [9], [], -1⟩ Block.zero).1 (by decide) (fun _ => rfl) (by decide)
  obtain ⟨-, bounded, back⟩ := node_codec ⟨true, 3, -1, [7], [9], [], -1⟩ written
  obtain ⟨again, rewrote, reread⟩ := back _ read
  rw [read] at bounded
  exact ⟨written, again, wrote, buffered, read, bounded, rewrote, reread⟩

end Exact

end QuorumDB.Storage
