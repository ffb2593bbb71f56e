import QuorumDB.Lib.Sequence
import QuorumDB.Storage.PageCalls

/-!
The B+ tree (`storage/bplus_tree.cpp`). A node is read by value, changed and written
back, as in the source. Loops and recursive calls are given a number of rounds.
-/

namespace QuorumDB.Storage
open Program Sequence

namespace PageProg

def rootPageId : PageProg PageId := Prog.ask PageCall.rootPageId
def setRootPageId (pageId : PageId) : PageProg Unit := Prog.ask (PageCall.setRootPageId pageId)
def readNode (pageId : PageId) : PageProg BPlusTreeNode := Prog.ask (PageCall.readNode pageId)
def writeNode (node : BPlusTreeNode) : PageProg Unit := Prog.ask (PageCall.writeNode node)
def createNode (node : BPlusTreeNode) : PageProg PageId := Prog.ask (PageCall.createNode node)
def deletePage (pageId : PageId) : PageProg Bool := Prog.ask (PageCall.deletePage pageId)

/-- An access to a vector element that is not there is undefined in the source. -/
def checked {Result : Type} : Option Result → PageProg Result
  | some value => .done value
  | none => .fail .outOfRange

end PageProg

namespace BPlusTree
open PageProg

/-- The loop of FindLeaf. -/
def findLeafFrom (key : Key) : Nat → PageId → PageProg PageId
  | 0, _ => .fail .unfinished
  | rounds + 1, current =>
      if current = invalidPageId then return invalidPageId
      else do
        let node ← readNode current
        if node.isLeaf then return current
        else findLeafFrom key rounds (← checked node.children[upperBound node.keys key]?)

def findLeaf (rounds : Nat) (key : Key) : PageProg PageId := do
  findLeafFrom key rounds (← rootPageId)

/-- `none` when the key is absent; otherwise what `*out_value` is set to. -/
def search (rounds : Nat) (key : Key) : PageProg (Option Value) := do
  if (← rootPageId) = invalidPageId then return none
  else
    let leaf ← readNode (← findLeaf rounds key)
    let index := lowerBound leaf.keys key
    if leaf.keys[index]? = some key then return some (← checked leaf.values[index]?)
    else return none

/-- The loop over the keys of one leaf, and whether it returned from RangeScan. -/
def scanEntries (start stop : Key) : List Key → List Value → List (Key × Value) →
    PageProg (List (Key × Value) × Bool)
  | [], _, out => return (out, false)
  | key :: keys, values, out =>
      if key < start then scanEntries start stop keys values.tail out
      else if key > stop then return (out, true)
      else do scanEntries start stop keys values.tail (out ++ [(key, ← checked values.head?)])

def scanLeaves (start stop : Key) : Nat → PageId → List (Key × Value) → PageProg (List (Key × Value))
  | 0, _, _ => .fail .unfinished
  | rounds + 1, leafId, out =>
      if leafId = invalidPageId then return out
      else do
        let leaf ← readNode leafId
        let (out, returned) ← scanEntries start stop leaf.keys leaf.values out
        if returned then return out else scanLeaves start stop rounds leaf.nextLeaf out

/-- What `*out` holds afterwards. -/
def rangeScan (rounds : Nat) (start stop : Key) (out : List (Key × Value)) : PageProg (List (Key × Value)) := do
  if (← rootPageId) = invalidPageId ∨ start > stop then return out
  else scanLeaves start stop rounds (← findLeaf rounds start) out

/-- The loop of FirstKey on a node it has read. -/
def firstKeyFrom : Nat → BPlusTreeNode → PageProg Key
  | 0, _ => .fail .unfinished
  | rounds + 1, node =>
      if node.isLeaf then checked node.keys.head?
      else do firstKeyFrom rounds (← readNode (← checked node.children.head?))

def firstKey (rounds : Nat) (pageId : PageId) : PageProg Key := do
  firstKeyFrom rounds (← readNode pageId)

/-- `rounds` is for this loop, `depth` for that of FirstKey. -/
def propagateMinimumChange (depth : Nat) : Nat → PageId → PageProg Unit
  | 0, _ => .fail .unfinished
  | rounds + 1, current => do
      if current = (← rootPageId) then return ()
      else
        let node ← readNode current
        let parent ← readNode node.parentId
        let childIndex := position parent.children current
        if childIndex > 0 then
          let keys ← checked (setAt? parent.keys (childIndex - 1) (← firstKey depth current))
          writeNode { parent with keys := keys }
          return ()
        else propagateMinimumChange depth rounds parent.pageId

def setChildrenParent : List PageId → PageId → PageProg Unit
  | [], _ => return ()
  | childId :: children, parentId => do
      let child ← readNode childId
      writeNode { child with parentId := parentId }
      setChildrenParent children parentId

def insertIntoParent : Nat → BPlusTreeNode → Key → BPlusTreeNode → PageProg Unit
  | 0, _, _, _ => .fail .unfinished
  | rounds + 1, left, separator, right =>
      if left.parentId = invalidPageId then do
        let root : BPlusTreeNode :=
          { isLeaf := false, keys := [separator], children := [left.pageId, right.pageId] }
        let rootId ← createNode root
        setRootPageId rootId
        writeNode { left with parentId := rootId }
        writeNode { right with parentId := rootId }
        return ()
      else do
        let parent ← readNode left.parentId
        let childIndex := position parent.children left.pageId
        let keys ← checked (insertAt? parent.keys childIndex separator)
        let children ← checked (insertAt? parent.children (childIndex + 1) right.pageId)
        writeNode { right with parentId := parent.pageId }
        if keys.length ≤ maxKeys then
          writeNode { parent with keys := keys, children := children }
          return ()
        else
          let middle := keys.length / 2
          let promotedKey ← checked keys[middle]?
          let newRight : BPlusTreeNode :=
            { isLeaf := false, parentId := parent.parentId,
              keys := keys.drop (middle + 1), children := children.drop (middle + 1) }
          let newRightId ← createNode newRight
          setChildrenParent newRight.children newRightId
          let parent := { parent with keys := keys.take middle, children := children.take (middle + 1) }
          writeNode parent
          insertIntoParent rounds parent promotedKey { newRight with pageId := newRightId }

/-- The end of Insert for a leaf with too many keys. -/
def splitLeaf (rounds : Nat) (leaf : BPlusTreeNode) : PageProg Bool := do
  let splitIndex := (leaf.keys.length + 1) / 2
  let right : BPlusTreeNode :=
    { isLeaf := true, parentId := leaf.parentId, nextLeaf := leaf.nextLeaf,
      keys := leaf.keys.drop splitIndex, values := leaf.values.drop splitIndex }
  let rightId ← createNode right
  let leaf := { leaf with
    keys := leaf.keys.take splitIndex, values := leaf.values.take splitIndex, nextLeaf := rightId }
  writeNode leaf
  insertIntoParent rounds leaf (← checked right.keys.head?) { right with pageId := rightId }
  return true

def insertIntoLeaf (rounds : Nat) (leaf : BPlusTreeNode) (index : Nat) (key : Key) (value : Value) :
    PageProg Bool := do
  let keys ← checked (insertAt? leaf.keys index key)
  let values ← checked (insertAt? leaf.values index value)
  let leaf := { leaf with keys := keys, values := values }
  if keys.length ≤ maxKeys then
    writeNode leaf
    if index = 0 then propagateMinimumChange rounds rounds leaf.pageId
    return true
  else splitLeaf rounds leaf

def insert (rounds : Nat) (key : Key) (value : Value) : PageProg Bool := do
  if (← rootPageId) = invalidPageId then
    let root : BPlusTreeNode := { keys := [key], values := [value] }
    setRootPageId (← createNode root)
    return true
  else
    let leaf ← readNode (← findLeaf rounds key)
    let index := lowerBound leaf.keys key
    if leaf.keys[index]? = some key then return false
    else insertIntoLeaf rounds leaf index key value

/-- The left neighbour gives its last child, and whether it did. -/
def borrowInnerLeft (parent node : BPlusTreeNode) (childIndex : Nat) : PageProg Bool :=
  if childIndex > 0 then do
    let left ← readNode (← checked parent.children[childIndex - 1]?)
    if left.keys.length > maxKeys / 2 then
      let separator ← checked parent.keys[childIndex - 1]?
      let child ← checked left.children.getLast?
      let last ← checked left.keys.getLast?
      let parentKeys ← checked (setAt? parent.keys (childIndex - 1) last)
      let leftKeys ← checked (popBack? left.keys)
      let leftChildren ← checked (popBack? left.children)
      setChildrenParent [child] node.pageId
      writeNode { left with keys := leftKeys, children := leftChildren }
      writeNode { node with keys := separator :: node.keys, children := child :: node.children }
      writeNode { parent with keys := parentKeys }
      return true
    else return false
  else return false

/-- The right neighbour gives its first child, and whether it did. -/
def borrowInnerRight (parent node : BPlusTreeNode) (childIndex : Nat) : PageProg Bool :=
  if childIndex + 1 < parent.children.length then do
    let right ← readNode (← checked parent.children[childIndex + 1]?)
    if right.keys.length > maxKeys / 2 then
      let separator ← checked parent.keys[childIndex]?
      let child ← checked right.children.head?
      let first ← checked right.keys.head?
      let parentKeys ← checked (setAt? parent.keys childIndex first)
      let rightKeys ← checked (eraseAt? right.keys 0)
      let rightChildren ← checked (eraseAt? right.children 0)
      setChildrenParent [child] node.pageId
      writeNode { node with keys := node.keys ++ [separator], children := node.children ++ [child] }
      writeNode { right with keys := rightKeys, children := rightChildren }
      writeNode { parent with keys := parentKeys }
      return true
    else return false
  else return false

def mergeInner (parent node : BPlusTreeNode) (childIndex : Nat) : PageProg Unit :=
  if childIndex > 0 then do
    let left ← readNode (← checked parent.children[childIndex - 1]?)
    let separator ← checked parent.keys[childIndex - 1]?
    let parentKeys ← checked (eraseAt? parent.keys (childIndex - 1))
    let parentChildren ← checked (eraseAt? parent.children childIndex)
    setChildrenParent node.children left.pageId
    writeNode { left with
      keys := left.keys ++ [separator] ++ node.keys, children := left.children ++ node.children }
    writeNode { parent with keys := parentKeys, children := parentChildren }
    let _ ← deletePage node.pageId
    return ()
  else do
    let right ← readNode (← checked parent.children[childIndex + 1]?)
    let separator ← checked parent.keys[childIndex]?
    let parentKeys ← checked (eraseAt? parent.keys childIndex)
    let parentChildren ← checked (eraseAt? parent.children (childIndex + 1))
    setChildrenParent right.children node.pageId
    writeNode { node with
      keys := node.keys ++ [separator] ++ right.keys, children := node.children ++ right.children }
    writeNode { parent with keys := parentKeys, children := parentChildren }
    let _ ← deletePage right.pageId
    return ()

def handleInternalUnderflow : Nat → PageId → PageProg Unit
  | 0, _ => .fail .unfinished
  | rounds + 1, pageId => do
      let node ← readNode pageId
      if node.pageId = (← rootPageId) then
        if node.keys = [] ∧ node.children ≠ [] then
          setRootPageId (← checked node.children.head?)
          let child ← readNode (← rootPageId)
          writeNode { child with parentId := invalidPageId }
          let _ ← deletePage node.pageId
          return ()
        else return ()
      else if node.keys.length ≥ maxKeys / 2 then return ()
      else
        let parent ← readNode node.parentId
        let childIndex := position parent.children node.pageId
        if ← borrowInnerLeft parent node childIndex then return ()
        else if ← borrowInnerRight parent node childIndex then return ()
        else
          mergeInner parent node childIndex
          handleInternalUnderflow rounds parent.pageId

def borrowLeafLeft (parent leaf : BPlusTreeNode) (childIndex : Nat) : PageProg Bool :=
  if childIndex > 0 then do
    let left ← readNode (← checked parent.children[childIndex - 1]?)
    if left.keys.length > maxKeys / 2 then
      let key ← checked left.keys.getLast?
      let value ← checked left.values.getLast?
      let leftKeys ← checked (popBack? left.keys)
      let leftValues ← checked (popBack? left.values)
      let parentKeys ← checked (setAt? parent.keys (childIndex - 1) key)
      writeNode { left with keys := leftKeys, values := leftValues }
      writeNode { leaf with keys := key :: leaf.keys, values := value :: leaf.values }
      writeNode { parent with keys := parentKeys }
      return true
    else return false
  else return false

def borrowLeafRight (parent leaf : BPlusTreeNode) (childIndex : Nat) : PageProg Bool :=
  if childIndex + 1 < parent.children.length then do
    let right ← readNode (← checked parent.children[childIndex + 1]?)
    if right.keys.length > maxKeys / 2 then
      let key ← checked right.keys.head?
      let value ← checked right.values.head?
      let rightKeys ← checked (eraseAt? right.keys 0)
      let rightValues ← checked (eraseAt? right.values 0)
      let parentKeys ← checked (setAt? parent.keys childIndex (← checked rightKeys.head?))
      writeNode { leaf with keys := leaf.keys ++ [key], values := leaf.values ++ [value] }
      writeNode { right with keys := rightKeys, values := rightValues }
      writeNode { parent with keys := parentKeys }
      return true
    else return false
  else return false

def mergeLeaf (parent leaf : BPlusTreeNode) (childIndex : Nat) : PageProg Unit :=
  if childIndex > 0 then do
    let left ← readNode (← checked parent.children[childIndex - 1]?)
    let parentKeys ← checked (eraseAt? parent.keys (childIndex - 1))
    let parentChildren ← checked (eraseAt? parent.children childIndex)
    writeNode { left with
      keys := left.keys ++ leaf.keys, values := left.values ++ leaf.values, nextLeaf := leaf.nextLeaf }
    writeNode { parent with keys := parentKeys, children := parentChildren }
    let _ ← deletePage leaf.pageId
    return ()
  else do
    let right ← readNode (← checked parent.children[childIndex + 1]?)
    let parentKeys ← checked (eraseAt? parent.keys childIndex)
    let parentChildren ← checked (eraseAt? parent.children (childIndex + 1))
    writeNode { leaf with
      keys := leaf.keys ++ right.keys, values := leaf.values ++ right.values, nextLeaf := right.nextLeaf }
    writeNode { parent with keys := parentKeys, children := parentChildren }
    let _ ← deletePage right.pageId
    return ()

/-- The end of Delete for a leaf with too few keys. -/
def handleLeafUnderflow (rounds : Nat) (leaf : BPlusTreeNode) : PageProg Unit := do
  let parent ← readNode leaf.parentId
  let childIndex := position parent.children leaf.pageId
  if ← borrowLeafLeft parent leaf childIndex then return ()
  else if ← borrowLeafRight parent leaf childIndex then return ()
  else
    mergeLeaf parent leaf childIndex
    handleInternalUnderflow rounds parent.pageId

def deleteFromLeaf (rounds : Nat) (leaf : BPlusTreeNode) (index : Nat) : PageProg Bool := do
  let keys ← checked (eraseAt? leaf.keys index)
  let values ← checked (eraseAt? leaf.values index)
  let leaf := { leaf with keys := keys, values := values }
  if leaf.pageId = (← rootPageId) ∨ keys.length ≥ maxKeys / 2 then
    writeNode leaf
    if keys ≠ [] ∧ index = 0 then propagateMinimumChange rounds rounds leaf.pageId
    return true
  else
    handleLeafUnderflow rounds leaf
    return true

def delete (rounds : Nat) (key : Key) : PageProg Bool := do
  if (← rootPageId) = invalidPageId then return false
  else
    let leaf ← readNode (← findLeaf rounds key)
    let index := lowerBound leaf.keys key
    if leaf.keys[index]? = some key then deleteFromLeaf rounds leaf index
    else return false

end BPlusTree

end QuorumDB.Storage
