import QuorumDB.Storage.BPlusTree

/-!
The searches for a child in its parent. The source takes the result of `std::find` as an
index without looking whether anything was found; here are the same functions, stopped
where nothing is.
-/

namespace QuorumDB.Storage
open Program PageProg Sequence

namespace BPlusTree.Strict

/-- `std::find` of a child that has to be there. -/
def find (children : List PageId) (child : PageId) : PageProg Nat :=
  if child ∈ children then return position children child else .fail .outOfRange

def propagateMinimumChange (depth : Nat) : Nat → PageId → PageProg Unit
  | 0, _ => .fail .unfinished
  | rounds + 1, current => do
      if current = (← rootPageId) then return ()
      else
        let node ← readNode current
        let parent ← readNode node.parentId
        let childIndex ← find parent.children current
        if childIndex > 0 then
          let keys ← checked (setAt? parent.keys (childIndex - 1) (← firstKey depth current))
          writeNode { parent with keys := keys }
          return ()
        else propagateMinimumChange depth rounds parent.pageId

def insertIntoParent : Nat → BPlusTreeNode → Key → BPlusTreeNode → PageProg Unit
  | 0, _, _, _ => .fail .unfinished
  | rounds + 1, left, separator, right =>
      if left.parentId = invalidPageId then do
        let root : BPlusTreeNode :=
          { isLeaf := false, keys := [separator], children := [left.pageId, right.pageId] }
        let rootId ← createNode root
        setRootPageId rootId
        writeNode { left with parentId := rootId }
        writeNode { right with parentId := rootId }
        return ()
      else do
        let parent ← readNode left.parentId
        let childIndex ← find parent.children left.pageId
        let keys ← checked (insertAt? parent.keys childIndex separator)
        let children ← checked (insertAt? parent.children (childIndex + 1) right.pageId)
        writeNode { right with parentId := parent.pageId }
        if keys.length ≤ maxKeys then
          writeNode { parent with keys := keys, children := children }
          return ()
        else
          let middle := keys.length / 2
          let promotedKey ← checked keys[middle]?
          let newRight : BPlusTreeNode :=
            { isLeaf := false, parentId := parent.parentId,
              keys := keys.drop (middle + 1), children := children.drop (middle + 1) }
          let newRightId ← createNode newRight
          setChildrenParent newRight.children newRightId
          let parent := { parent with keys := keys.take middle, children := children.take (middle + 1) }
          writeNode parent
          insertIntoParent rounds parent promotedKey { newRight with pageId := newRightId }

def splitLeaf (rounds : Nat) (leaf : BPlusTreeNode) : PageProg Bool := do
  let splitIndex := (leaf.keys.length + 1) / 2
  let right : BPlusTreeNode :=
    { isLeaf := true, parentId := leaf.parentId, nextLeaf := leaf.nextLeaf,
      keys := leaf.keys.drop splitIndex, values := leaf.values.drop splitIndex }
  let rightId ← createNode right
  let leaf := { leaf with
    keys := leaf.keys.take splitIndex, values := leaf.values.take splitIndex, nextLeaf := rightId }
  writeNode leaf
  insertIntoParent rounds leaf (← checked right.keys.head?) { right with pageId := rightId }
  return true

def insertIntoLeaf (rounds : Nat) (leaf : BPlusTreeNode) (index : Nat) (key : Key) (value : Value) :
    PageProg Bool := do
  let keys ← checked (insertAt? leaf.keys index key)
  let values ← checked (insertAt? leaf.values index value)
  let leaf := { leaf with keys := keys, values := values }
  if keys.length ≤ maxKeys then
    writeNode leaf
    if index = 0 then propagateMinimumChange rounds rounds leaf.pageId
    return true
  else splitLeaf rounds leaf

def insert (rounds : Nat) (key : Key) (value : Value) : PageProg Bool := do
  if (← rootPageId) = invalidPageId then
    let root : BPlusTreeNode := { keys := [key], values := [value] }
    setRootPageId (← createNode root)
    return true
  else
    let leaf ← readNode (← findLeaf rounds key)
    let index := lowerBound leaf.keys key
    if leaf.keys[index]? = some key then return false
    else insertIntoLeaf rounds leaf index key value

def handleInternalUnderflow : Nat → PageId → PageProg Unit
  | 0, _ => .fail .unfinished
  | rounds + 1, pageId => do
      let node ← readNode pageId
      if node.pageId = (← rootPageId) then
        if node.keys = [] ∧ node.children ≠ [] then
          setRootPageId (← checked node.children.head?)
          let child ← readNode (← rootPageId)
          writeNode { child with parentId := invalidPageId }
          let _ ← deletePage node.pageId
          return ()
        else return ()
      else if node.keys.length ≥ maxKeys / 2 then return ()
      else
        let parent ← readNode node.parentId
        let childIndex ← find parent.children node.pageId
        if ← borrowInnerLeft parent node childIndex then return ()
        else if ← borrowInnerRight parent node childIndex then return ()
        else
          mergeInner parent node childIndex
          handleInternalUnderflow rounds parent.pageId

def handleLeafUnderflow (rounds : Nat) (leaf : BPlusTreeNode) : PageProg Unit := do
  let parent ← readNode leaf.parentId
  let childIndex ← find parent.children leaf.pageId
  if ← borrowLeafLeft parent leaf childIndex then return ()
  else if ← borrowLeafRight parent leaf childIndex then return ()
  else
    mergeLeaf parent leaf childIndex
    handleInternalUnderflow rounds parent.pageId

def deleteFromLeaf (rounds : Nat) (leaf : BPlusTreeNode) (index : Nat) : PageProg Bool := do
  let keys ← checked (eraseAt? leaf.keys index)
  let values ← checked (eraseAt? leaf.values index)
  let leaf := { leaf with keys := keys, values := values }
  if leaf.pageId = (← rootPageId) ∨ keys.length ≥ maxKeys / 2 then
    writeNode leaf
    if keys ≠ [] ∧ index = 0 then propagateMinimumChange rounds rounds leaf.pageId
    return true
  else
    handleLeafUnderflow rounds leaf
    return true

def delete (rounds : Nat) (key : Key) : PageProg Bool := do
  if (← rootPageId) = invalidPageId then return false
  else
    let leaf ← readNode (← findLeaf rounds key)
    let index := lowerBound leaf.keys key
    if leaf.keys[index]? = some key then deleteFromLeaf rounds leaf index
    else return false

end BPlusTree.Strict

namespace BPlusTree

def Missed (error : StorageError) : Prop := error = .outOfRange

/-- The first program is the second, stopped where a child is not in its parent. -/
abbrev Finding {Result : Type} (strict plain : PageProg Result) : Prop := Asserts Missed strict plain

variable {Result : Type}

theorem find_finding {children : List PageId} {child : PageId} {strict : Nat → PageProg Result} {plain : PageProg Result}
    (rest : Finding (strict (position children child)) plain) : Finding (Strict.find children child >>= strict) plain := by
  unfold Strict.find
  by_cases member : child ∈ children
  · rw [if_pos member]
    exact rest
  · rw [if_neg member, Prog.fail_bind]
    have missed : Missed .outOfRange := rfl
    exact Asserts.stop missed plain

theorem propagateMinimumChange_finding (depth rounds : Nat) (current : PageId) :
    Finding (Strict.propagateMinimumChange depth rounds current) (propagateMinimumChange depth rounds current) := by
  induction rounds generalizing current with
  | zero => exact .fail _
  | succ rounds ih =>
    rw [Strict.propagateMinimumChange, propagateMinimumChange]
    refine .bind (.refl _) fun root => .branch (.refl _) (.bind (.refl _) fun node => .bind (.refl _) fun parent => ?_)
    exact find_finding (.branch (.refl _) (ih _))

theorem insertIntoParent_finding (rounds : Nat) (left : BPlusTreeNode) (separator : Key) (right : BPlusTreeNode) :
    Finding (Strict.insertIntoParent rounds left separator right) (insertIntoParent rounds left separator right) := by
  induction rounds generalizing left separator right with
  | zero => exact .fail _
  | succ rounds ih =>
    rw [Strict.insertIntoParent, insertIntoParent]
    refine .branch (.refl _) (.bind (.refl _) fun parent => find_finding ?_)
    refine .bind (.refl _) fun keys => .bind (.refl _) fun children => .bind (.refl _) fun _ => .branch (.refl _) ?_
    refine .bind (.refl _) fun promoted => .bind (.refl _) fun newRightId => .bind (.refl _) fun _ => ?_
    exact .bind (.refl _) fun _ => ih _ _ _

theorem splitLeaf_finding (rounds : Nat) (leaf : BPlusTreeNode) :
    Finding (Strict.splitLeaf rounds leaf) (splitLeaf rounds leaf) := by
  refine .bind (.refl _) fun rightId => .bind (.refl _) fun _ => .bind (.refl _) fun first => ?_
  exact .bind (insertIntoParent_finding rounds _ first _) fun _ => .refl _

theorem insertIntoLeaf_finding (rounds : Nat) (leaf : BPlusTreeNode) (index : Nat) (key : Key) (value : Value) :
    Finding (Strict.insertIntoLeaf rounds leaf index key value) (insertIntoLeaf rounds leaf index key value) := by
  refine .bind (.refl _) fun keys => .bind (.refl _) fun values => .branch (.bind (.refl _) fun _ => ?_)
    (splitLeaf_finding rounds _)
  exact .branch (.bind (propagateMinimumChange_finding rounds rounds _) fun _ => .refl _) (.refl _)

theorem insert_finding (rounds : Nat) (key : Key) (value : Value) :
    Finding (Strict.insert rounds key value) (insert rounds key value) := by
  refine .bind (.refl _) fun root => .branch (.refl _) (.bind (.refl _) fun leafId => .bind (.refl _) fun leaf => ?_)
  exact .branch (.refl _) (insertIntoLeaf_finding rounds leaf _ key value)

theorem handleInternalUnderflow_finding (rounds : Nat) (pageId : PageId) :
    Finding (Strict.handleInternalUnderflow rounds pageId) (handleInternalUnderflow rounds pageId) := by
  induction rounds generalizing pageId with
  | zero => exact .fail _
  | succ rounds ih =>
    rw [Strict.handleInternalUnderflow, handleInternalUnderflow]
    refine .bind (.refl _) fun node => .bind (.refl _) fun root => .branch (.refl _) (.branch (.refl _) ?_)
    refine .bind (.refl _) fun parent => find_finding (.bind (.refl _) fun fromLeft => .branch (.refl _) ?_)
    refine .bind (.refl _) fun fromRight => .branch (.refl _) ?_
    exact .bind (.refl _) fun _ => ih _

theorem handleLeafUnderflow_finding (rounds : Nat) (leaf : BPlusTreeNode) :
    Finding (Strict.handleLeafUnderflow rounds leaf) (handleLeafUnderflow rounds leaf) := by
  refine .bind (.refl _) fun parent => find_finding (.bind (.refl _) fun fromLeft => .branch (.refl _) ?_)
  refine .bind (.refl _) fun fromRight => .branch (.refl _) ?_
  exact .bind (.refl _) fun _ => handleInternalUnderflow_finding rounds _

theorem deleteFromLeaf_finding (rounds : Nat) (leaf : BPlusTreeNode) (index : Nat) :
    Finding (Strict.deleteFromLeaf rounds leaf index) (deleteFromLeaf rounds leaf index) := by
  refine .bind (.refl _) fun keys => .bind (.refl _) fun values => .bind (.refl _) fun root => .branch ?_ ?_
  · refine .bind (.refl _) fun _ => ?_
    exact .branch (.bind (propagateMinimumChange_finding rounds rounds _) fun _ => .refl _) (.refl _)
  · exact .bind (handleLeafUnderflow_finding rounds _) fun _ => .refl _

theorem delete_finding (rounds : Nat) (key : Key) : Finding (Strict.delete rounds key) (delete rounds key) := by
  refine .bind (.refl _) fun root => .branch (.refl _) (.bind (.refl _) fun leafId => .bind (.refl _) fun leaf => ?_)
  exact .branch (deleteFromLeaf_finding rounds leaf _) (.refl _)

end BPlusTree

end QuorumDB.Storage
