import QuorumDB.Lib.LittleEndian
import QuorumDB.Storage.Page

/-!
B+ tree nodes and their page format (`storage/bplus_tree_node.h` and the codec at the
head of `storage/bplus_tree.cpp`). A node that fits its page reads back as itself.
-/

namespace QuorumDB.Storage
open LittleEndian

def maxKeys : Nat := 4
def nodeMagic : UInt32 := 0x51444231

structure BPlusTreeNode where
  isLeaf : Bool := true
  pageId : PageId := invalidPageId
  parentId : PageId := invalidPageId
  keys : List Key := []
  values : List Value := []
  children : List PageId := []
  nextLeaf : PageId := invalidPageId
  deriving DecidableEq, Repr

namespace BPlusTreeNode

def Serializable (node : BPlusTreeNode) : Prop :=
  ¬ (node.keys.length > maxKeys ∨ (node.isLeaf ∧ node.values.length ≠ node.keys.length) ∨
    (¬ node.isLeaf ∧ node.children.length ≠ node.keys.length + 1))

instance (node : BPlusTreeNode) : Decidable node.Serializable := inferInstanceAs (Decidable (¬ _))

def header (node : BPlusTreeNode) : Bytes :=
  uint32Bytes nodeMagic ++ ((if node.isLeaf then 1 else 0) :: (int32Bytes node.pageId ++
    (int32Bytes node.parentId ++ (int32Bytes node.nextLeaf ++ uint32Bytes (UInt32.ofNat node.keys.length)))))

def payload (node : BPlusTreeNode) : Bytes :=
  node.keys.flatMap int64Bytes ++
    if node.isLeaf then node.values.flatMap int64Bytes else node.children.flatMap int32Bytes

end BPlusTreeNode

def serializeNode (node : BPlusTreeNode) : Except StorageError Block :=
  if node.Serializable then .ok (Block.zero.write (node.header ++ node.payload)) else .error .invalidNode

def deserializeBody (bytes : Bytes) : Except StorageError BPlusTreeNode :=
  let (leafByte, bytes) := readValue 1 bytes
  let (pageId, bytes) := readInt32 bytes
  let (parentId, bytes) := readInt32 bytes
  let (nextLeaf, bytes) := readInt32 bytes
  let (keyCount, bytes) := readUInt32 bytes
  if keyCount.toNat > maxKeys then .error .invalidKeyCount
  else
    let (keys, bytes) := readMany readInt64 keyCount.toNat bytes
    if leafByte ≠ 0 then
      .ok ⟨true, pageId, parentId, keys, (readMany readInt64 keyCount.toNat bytes).1, [], nextLeaf⟩
    else
      .ok ⟨false, pageId, parentId, keys, [], (readMany readInt32 (keyCount.toNat + 1) bytes).1, nextLeaf⟩

def deserializeNode (page : Block) : Except StorageError BPlusTreeNode :=
  let (magic, bytes) := readUInt32 page.bytes
  if magic ≠ nodeMagic then .error .invalidNodePage else deserializeBody bytes

namespace BPlusTreeNode

/-- A node with nothing in it that its page would not hold. -/
structure Fits (node : BPlusTreeNode) : Prop where
  keys : node.keys.length ≤ maxKeys
  leaf : node.isLeaf = true → node.values.length = node.keys.length ∧ node.children = []
  inner : node.isLeaf = false → node.children.length = node.keys.length + 1 ∧ node.values = []

theorem Fits.serializable {node : BPlusTreeNode} (fits : node.Fits) : node.Serializable := by
  rintro (many | ⟨leaf, wrong⟩ | ⟨inner, wrong⟩)
  · exact absurd fits.keys (Nat.not_le_of_lt many)
  · exact wrong (fits.leaf leaf).1
  · exact wrong (fits.inner (Bool.eq_false_iff.mpr inner)).1

theorem flatMap_length_const {Item : Type} {write : Item → Bytes} {width : Nat}
    (fixed : ∀ item, (write item).length = width) (items : List Item) :
    (items.flatMap write).length = items.length * width := by
  simp [List.length_flatMap, fixed]

theorem Serializable.counts {node : BPlusTreeNode} (accepted : node.Serializable) :
    node.keys.length ≤ maxKeys ∧ (node.isLeaf = true → node.values.length = node.keys.length) ∧
      (node.isLeaf = false → node.children.length = node.keys.length + 1) := by
  unfold Serializable at accepted
  simp only [not_or, not_and, Decidable.not_not] at accepted
  obtain ⟨keys, leaf, inner⟩ := accepted
  exact ⟨Nat.le_of_not_lt keys, leaf, fun kind => inner (Bool.eq_false_iff.mp kind)⟩

theorem Serializable.short {node : BPlusTreeNode} (accepted : node.Serializable) :
    (node.header ++ node.payload).length ≤ pageSize := by
  obtain ⟨count, leaf, inner⟩ := accepted.counts
  have keys := flatMap_length_const int64Bytes_length node.keys
  have values := flatMap_length_const int64Bytes_length node.values
  have children := flatMap_length_const int32Bytes_length node.children
  unfold header payload
  simp only [List.length_append, List.length_cons, uint32Bytes_length, int32Bytes_length, keys]
  unfold maxKeys at count
  unfold pageSize
  cases kind : node.isLeaf with
  | true =>
    have same := leaf kind
    simp only [↓reduceIte, values]
    omega
  | false =>
    have same := inner kind
    simp only [Bool.false_eq_true, ↓reduceIte, children]
    omega

theorem Fits.short {node : BPlusTreeNode} (fits : node.Fits) : (node.header ++ node.payload).length ≤ pageSize :=
  fits.serializable.short

theorem Serializable.fits {node : BPlusTreeNode} (accepted : node.Serializable)
    (leaf : node.isLeaf = true → node.children = []) (inner : node.isLeaf = false → node.values = []) : node.Fits where
  keys := accepted.counts.1
  leaf kind := ⟨accepted.counts.2.1 kind, leaf kind⟩
  inner kind := ⟨accepted.counts.2.2 kind, inner kind⟩

end BPlusTreeNode

def nodePage (node : BPlusTreeNode) : Block := Block.zero.write (node.header ++ node.payload)

theorem serializeNode_eq {node : BPlusTreeNode} (fits : node.Fits) : serializeNode node = .ok (nodePage node) :=
  if_pos fits.serializable

theorem deserializeBody_append {node : BPlusTreeNode} (fits : node.Fits) (rest : Bytes) :
    deserializeBody (((if node.isLeaf then 1 else 0) :: (int32Bytes node.pageId ++ (int32Bytes node.parentId ++
      (int32Bytes node.nextLeaf ++ uint32Bytes (UInt32.ofNat node.keys.length))))) ++ (node.payload ++ rest)) =
      .ok node := by
  have few := fits.keys
  have count : (UInt32.ofNat node.keys.length).toNat = node.keys.length := by
    rw [UInt32.toNat_ofNat']
    unfold maxKeys at few
    omega
  have first : ∀ (byte : UInt8) (tail : Bytes), readValue 1 (byte :: tail) = (byte.toNat, tail) := by
    intro byte tail
    simp [readValue, ofBytes]
  unfold deserializeBody BPlusTreeNode.payload
  simp only [List.cons_append, List.append_assoc, first, readInt32_append, readUInt32_append, count,
    if_neg (Nat.not_lt_of_le few), readMany_append readInt64_append]
  cases node with
  | mk isLeaf pageId parentId keys values children nextLeaf =>
  cases isLeaf with
  | true =>
    obtain ⟨same, none⟩ := fits.leaf rfl
    simp only at same none
    subst none
    simp only [↓reduceIte, ← same, readMany_append readInt64_append]
    simp
  | false =>
    obtain ⟨same, none⟩ := fits.inner rfl
    simp only at same none
    subst none
    simp only [Bool.false_eq_true, ↓reduceIte, ← same, readMany_append readInt32_append]
    simp

theorem deserializeNode_nodePage {node : BPlusTreeNode} (fits : node.Fits) :
    deserializeNode (nodePage node) = .ok node := by
  unfold deserializeNode nodePage
  rw [Block.write_bytes fits.short]
  unfold BPlusTreeNode.header
  simp only [List.append_assoc, readUInt32_append, ne_eq, not_true_eq_false, ↓reduceIte]
  have body := deserializeBody_append fits
    (Block.zero.bytes.drop (node.header ++ node.payload).length)
  simp only [List.append_assoc, List.cons_append] at body ⊢
  exact body

end QuorumDB.Storage
