import QuorumDB.Storage.TreeInsert

/-!
HandleInternalUnderflow. A node that lost a child takes one from a neighbour or is
joined with it, and its parent is looked at next; none of this changes the word.
-/

namespace QuorumDB.Storage
open PageProg SearchWord Interleave Sequence BPlusTree

variable {store : TreeStore} {root : PageId} {base : Multiset (PageId × Cell)} {height : Nat}

/-- A gap with a separator for every child around it. -/
structure Gap.Sized (gap : Gap (Tree height)) : Prop where
  before : gap.keysBefore.length = gap.before.length
  after : gap.keysAfter.length = gap.after.length
  left : ∀ child ∈ gap.before, child.Shaped (maxKeys / 2)
  right : ∀ child ∈ gap.after, child.Shaped (maxKeys / 2)

theorem Gap.Shaped.sized {gap : Gap (Tree height)} {least : Nat} (shaped : gap.Shaped least) : gap.Sized :=
  ⟨shaped.before, shaped.after, shaped.left, shaped.right⟩

def Gap.count (gap : Gap (Tree height)) : Nat := gap.keysBefore.length + gap.keysAfter.length

theorem Gap.Sized.shaped {gap : Gap (Tree height)} (sized : gap.Sized) {least : Nat} (few : least ≤ gap.count)
    (many : gap.count ≤ maxKeys) : gap.Shaped least :=
  ⟨sized.before, sized.after, few, many, sized.left, sized.right⟩

theorem Gap.Sized.pair_word {gap : Gap (Tree height)} (sized : gap.Sized) (left right : Tree height) (separator : Key) :
    (gap.pair left separator right).word =
      weaveLeft Token.sep Tree.word gap.keysBefore gap.before ++ ((left.word ++ .sep separator :: right.word) ++
        weaveRight Token.sep Tree.word gap.keysAfter gap.after) := by
  have sizes := sized.after
  have behind : (separator :: gap.keysAfter).length = (right :: gap.after).length := by
    rw [List.length_cons, List.length_cons, sizes]
  rw [Gap.pair, Tree.inner_word, weave_middle sized.before behind, weaveRight, List.append_assoc, List.cons_append]

theorem Gap.Sized.pair_shaped {gap : Gap (Tree height)} (sized : gap.Sized) {least : Nat} {left right : Tree height}
    (separator : Key) (few : least ≤ gap.count + 1) (many : gap.count + 1 ≤ maxKeys)
    (goodLeft : left.Shaped (maxKeys / 2)) (goodRight : right.Shaped (maxKeys / 2)) :
    (gap.pair left separator right).Shaped least := by
  have before := sized.before
  have after := sized.after
  have count : (gap.keysBefore ++ separator :: gap.keysAfter).length = gap.count + 1 := by
    rw [List.length_append, List.length_cons, Gap.count]
    rfl
  refine Tree.inner_shaped.mpr ⟨count ▸ few, count ▸ many, ?_, fun child member => ?_⟩
  · rw [count, Gap.count]
    simp only [List.length_append, List.length_cons]
    omega
  · rcases List.mem_append.mp member with inside | other
    · exact sized.left child inside
    · rcases List.mem_cons.mp other with rfl | other
      · exact goodLeft
      · rcases List.mem_cons.mp other with rfl | inside
        · exact goodRight
        · exact sized.right child inside

theorem Gap.Sized.split_left {gap : Gap (Tree height)} (sized : gap.Sized) (nonempty : gap.before ≠ []) :
    ∃ (outer : Gap (Tree height)) (left : Tree height) (separator : Key), outer.Sized ∧ left.Shaped (maxKeys / 2) ∧
      outer.id = gap.id ∧ gap.before.length = outer.before.length + 1 ∧ gap.count = outer.count + 1 ∧
      gap.before.getLast? = some left ∧ ∀ tree, gap.fill tree = outer.pair left separator tree := by
  obtain ⟨before, left, last⟩ := List.eq_nil_or_concat gap.before |>.resolve_left nonempty
  rw [List.concat_eq_append] at last
  have sizes := sized.before
  rw [last, List.length_append, List.length_singleton] at sizes
  obtain ⟨keys, separator, keySplit⟩ := List.eq_nil_or_concat gap.keysBefore |>.resolve_left
    (by rw [← List.length_eq_zero_iff, sizes]; exact Nat.succ_ne_zero _)
  rw [List.concat_eq_append] at keySplit
  have sameLength : keys.length = before.length := by
    rw [keySplit, List.length_append, List.length_singleton] at sizes
    exact Nat.succ.inj sizes
  refine ⟨⟨gap.id, keys, before, gap.keysAfter, gap.after⟩, left, separator, ⟨sameLength, sized.after, ?_, sized.right⟩,
    ?_, rfl, ?_, ?_, ?_, fun tree => ?_⟩
  · exact fun child member => sized.left child (last ▸ List.mem_append.mpr (.inl member))
  · exact sized.left left (last ▸ List.mem_append.mpr (.inr List.mem_cons_self))
  · rw [last, List.length_append, List.length_singleton]
  · rw [Gap.count, Gap.count, keySplit, List.length_append, List.length_singleton]
    simp only
    omega
  · rw [last, List.getLast?_concat]
  · rw [Gap.fill, Gap.pair, last, keySplit, List.append_assoc, List.append_assoc, List.singleton_append,
      List.singleton_append]

theorem Gap.Sized.split_right {gap : Gap (Tree height)} (sized : gap.Sized) (nonempty : gap.after ≠ []) :
    ∃ (outer : Gap (Tree height)) (right : Tree height) (separator : Key), outer.Sized ∧ right.Shaped (maxKeys / 2) ∧
      outer.id = gap.id ∧ gap.before = outer.before ∧ gap.count = outer.count + 1 ∧
      gap.after.head? = some right ∧ ∀ tree, gap.fill tree = outer.pair tree separator right := by
  obtain ⟨right, after, first⟩ := List.exists_cons_of_ne_nil nonempty
  have sizes := sized.after
  rw [first, List.length_cons] at sizes
  obtain ⟨separator, keys, keySplit⟩ := List.exists_cons_of_length_eq_add_one sizes
  have sameLength : keys.length = after.length := by
    rw [keySplit, List.length_cons] at sizes
    exact Nat.succ.inj sizes
  refine ⟨⟨gap.id, gap.keysBefore, gap.before, keys, after⟩, right, separator, ⟨sized.before, sameLength, sized.left, ?_⟩,
    ?_, rfl, rfl, ?_, ?_, fun tree => ?_⟩
  · exact fun child member => sized.right child (first ▸ List.mem_cons_of_mem _ member)
  · exact sized.right right (first ▸ List.mem_cons_self)
  · rw [Gap.count, Gap.count, keySplit, List.length_cons]
    simp only
    omega
  · rw [first, List.head?_cons]
  · rw [Gap.fill, Gap.pair, first, keySplit]

section Vectors

variable {gap : Gap (Tree height)} {left right : Tree height} {separator : Key} {parent : PageId}

theorem Gap.pair_ids : ((gap.pair left separator right).node parent).children =
    gap.before.map Tree.id ++ left.id :: right.id :: gap.after.map Tree.id := by
  simp [Gap.pair, Tree.inner_node]

theorem Gap.Sized.get_key (sized : gap.Sized) :
    ((gap.pair left separator right).node parent).keys[gap.before.length]? = some separator :=
  getElem?_middle sized.before

theorem Gap.get_left : ((gap.pair left separator right).node parent).children[gap.before.length]? = some left.id := by
  rw [Gap.pair_ids]
  exact getElem?_middle (List.length_map _)

theorem Gap.get_right : ((gap.pair left separator right).node parent).children[gap.before.length + 1]? =
    some right.id := by
  rw [Gap.pair_ids, ← List.singleton_append, ← List.append_assoc]
  exact getElem?_middle (by rw [List.length_append, List.length_map, List.length_singleton])

theorem Gap.Sized.set_key (sized : gap.Sized) (key : Key) :
    setAt? ((gap.pair left separator right).node parent).keys gap.before.length key =
      some (gap.keysBefore ++ key :: gap.keysAfter) :=
  setAt?_append sized.before

theorem Gap.Sized.erase_key (sized : gap.Sized) :
    eraseAt? ((gap.pair left separator right).node parent).keys gap.before.length =
      some (gap.keysBefore ++ gap.keysAfter) :=
  eraseAt?_append sized.before

theorem Gap.erase_right : eraseAt? ((gap.pair left separator right).node parent).children (gap.before.length + 1) =
    some (gap.before.map Tree.id ++ left.id :: gap.after.map Tree.id) := by
  rw [Gap.pair_ids, ← List.singleton_append, ← List.append_assoc,
    eraseAt?_append (by rw [List.length_append, List.length_map, List.length_singleton])]
  rw [List.append_assoc, List.singleton_append]

theorem Gap.pair_node (key : Key) {newLeft newRight : Tree height} (sameLeft : newLeft.id = left.id)
    (sameRight : newRight.id = right.id) :
    { (gap.pair left separator right).node parent with keys := gap.keysBefore ++ key :: gap.keysAfter } =
      (gap.pair newLeft key newRight).node parent := by
  simp [Gap.pair, Tree.inner_node, sameLeft, sameRight]

theorem Gap.join_node {joined : Tree height} (same : joined.id = left.id) :
    { (gap.pair left separator right).node parent with
      keys := gap.keysBefore ++ gap.keysAfter
      children := gap.before.map Tree.id ++ left.id :: gap.after.map Tree.id } = (gap.fill joined).node parent := by
  simp [Gap.pair, Gap.fill, Tree.inner_node, same]

theorem Gap.Sized.fill_word (sized : gap.Sized) (tree : Tree height) :
    (gap.fill tree).word = weaveLeft Token.sep Tree.word gap.keysBefore gap.before ++
      (tree.word ++ weaveRight Token.sep Tree.word gap.keysAfter gap.after) :=
  weave_middle sized.before sized.after

theorem Gap.Sized.pair_congr (sized : gap.Sized) {newLeft newRight : Tree height} {key : Key}
    (same : newLeft.word ++ .sep key :: newRight.word = left.word ++ .sep separator :: right.word) :
    (gap.pair newLeft key newRight).word = (gap.pair left separator right).word := by
  rw [sized.pair_word, sized.pair_word, same]

theorem Gap.Sized.join_congr (sized : gap.Sized) {joined : Tree height}
    (same : joined.word = left.word ++ .sep separator :: right.word) :
    (gap.fill joined).word = (gap.pair left separator right).word := by
  rw [sized.pair_word, sized.fill_word, same]

end Vectors

theorem Tree.join_word {leftId rightId : PageId} {leftKeys rightKeys : List Key} {leftChildren rightChildren : List (Tree height)}
    (separator : Key) (sizes : leftChildren.length = leftKeys.length + 1) :
    (Tree.inner leftId leftKeys leftChildren).word ++ .sep separator :: (Tree.inner rightId rightKeys rightChildren).word =
      weave Token.sep Tree.word (leftKeys ++ separator :: rightKeys) (leftChildren ++ rightChildren) :=
  (weave_join sizes).symm

/-- Two neighbours under their parent, as the pages hold them. -/
def pairNodes (above : Context (height + 1)) (gap : Gap (Tree height)) (left : Tree height) (separator : Key)
    (right : Tree height) : Multiset BPlusTreeNode :=
  above.nodes gap.id + {(gap.pair left separator right).node above.parentId} + gap.siblings +
    left.nodes gap.id + right.nodes gap.id

theorem Rooted.of_pair {above : Context (height + 1)} (shaped : above.Shaped) {gap : Gap (Tree height)} {left right : Tree height}
    {separator : Key} (good : (gap.pair left separator right).Shaped above.least)
    (holding : Holding store (above.rootId gap.id) (pairNodes above gap left separator right) base) :
    Rooted store base (above.left ++ ((gap.pair left separator right).word ++ above.right)) := by
  refine Rooted.of_context shaped good (holding.cast ?_)
  rw [Tree.nodes_eq, Gap.pair_below, pairNodes]
  change _ = above.nodes gap.id + _
  abel

theorem exists_last {Item : Type} {items : List Item} (some : 0 < items.length) : ∃ before last, items = before ++ [last] := by
  rcases List.eq_nil_or_concat items with rfl | ⟨before, last, rfl⟩
  · exact absurd some (lt_irrefl 0)
  · exact ⟨before, last, List.concat_eq_append⟩

section Borrow

variable {above : Context (height + 2)} {gap : Gap (Tree (height + 1))} {left right : Tree (height + 1)} {separator : Key}

theorem borrowInnerLeft_spec (shaped : above.Shaped) (sized : gap.Sized) (few : above.least ≤ gap.count + 1)
    (many : gap.count + 1 ≤ maxKeys) (goodLeft : left.Shaped (maxKeys / 2)) (poor : right.Shaped (maxKeys / 2 - 1))
    (short : (right.node gap.id).keys.length < maxKeys / 2)
    (holding : Holding store (above.rootId gap.id) (pairNodes above gap left separator right) base) :
    Proceeds (borrowInnerLeft ((gap.pair left separator right).node above.parentId) (right.node gap.id)
      (gap.before.length + 1)) (fun moved later =>
        (moved = true ∧ Rooted later base (above.left ++ ((gap.pair left separator right).word ++ above.right))) ∨
        (moved = false ∧ (left.node gap.id).keys.length ≤ maxKeys / 2 ∧
          Holding later (above.rootId gap.id) (pairNodes above gap left separator right) base)) store := by
  rw [borrowInnerLeft, if_pos (Nat.succ_pos _)]
  simp only [Nat.add_sub_cancel, Gap.get_left, sized.get_key, sized.set_key, checked_some]
  have leftMember : left.node gap.id ∈ pairNodes above gap left separator right :=
    Multiset.mem_add.mpr (.inl (Multiset.mem_add.mpr (.inr (left.mem_nodes _))))
  refine holding.read leftMember (Tree.node_pageId left).symm fun later one => ?_
  by_cases rich : (left.node gap.id).keys.length > maxKeys / 2
  · rw [if_pos rich]
    obtain ⟨leftId, leftKeys, leftChildren, rfl⟩ := left.exists_inner
    obtain ⟨rightId, rightKeys, rightChildren, rfl⟩ := right.exists_inner
    obtain ⟨-, leftMost, leftSizes, leftGood⟩ := Tree.inner_shaped.mp goodLeft
    obtain ⟨least, -, rightSizes, rightGood⟩ := Tree.inner_shaped.mp poor
    change leftKeys.length > maxKeys / 2 at rich
    change rightKeys.length < maxKeys / 2 at short
    obtain ⟨keys, last, rfl⟩ := exists_last (Nat.zero_lt_of_lt rich)
    obtain ⟨children, child, rfl⟩ := exists_last (leftSizes.symm ▸ Nat.succ_pos _ : 0 < leftChildren.length)
    rw [List.length_append, List.length_singleton] at rich leftMost
    simp only [List.length_append, List.length_singleton] at leftSizes
    let newLeft : Tree (height + 1) := .inner leftId keys children
    let newRight : Tree (height + 1) := .inner rightId (separator :: rightKeys) (child :: rightChildren)
    have goodNewLeft : newLeft.Shaped (maxKeys / 2) :=
      Tree.inner_shaped.mpr ⟨Nat.le_of_lt_succ rich, by omega, by omega,
        fun other member => leftGood other (List.mem_append.mpr (.inl member))⟩
    have goodNewRight : newRight.Shaped (maxKeys / 2) := by
      refine Tree.inner_shaped.mpr ⟨?_, ?_, ?_, fun other member => ?_⟩
      · rw [List.length_cons]
        omega
      · rw [List.length_cons]
        unfold maxKeys at short ⊢
        omega
      · rw [List.length_cons, List.length_cons, rightSizes]
      · rcases List.mem_cons.mp member with rfl | inside
        · exact leftGood other (List.mem_append.mpr (.inr List.mem_cons_self))
        · exact rightGood other inside
    have ids : ((Tree.inner leftId (keys ++ [last]) (children ++ [child])).node gap.id).children =
        children.map Tree.id ++ [child.id] := List.map_append
    have leftNode : ((Tree.inner leftId (keys ++ [last]) (children ++ [child])).node gap.id).keys = keys ++ [last] := rfl
    simp only [ids, leftNode, List.getLast?_concat, popBack?_append, checked_some, Tree.node_pageId]
    have goodChild : ∀ other ∈ [child], other.Shaped (maxKeys / 2) := fun other member =>
      leftGood other (List.mem_append.mpr (.inr member))
    let rest := above.nodes gap.id + gap.siblings + (children.map (Tree.nodes leftId)).sum +
      (rightChildren.map (Tree.nodes rightId)).sum
    let parent := (gap.pair (Tree.inner leftId (keys ++ [last]) (children ++ [child])) separator
      (Tree.inner rightId rightKeys rightChildren)).node above.parentId
    let leftOld := (Tree.inner leftId (keys ++ [last]) (children ++ [child])).node gap.id
    let rightOld := (Tree.inner rightId rightKeys rightChildren).node gap.id
    refine (setChildrenParent_spec goodChild leftId rightId ({parent} + {leftOld} + {rightOld} + rest)
      (one.cast ?_)).seq fun _ later two => ?_
    · rw [pairNodes, Tree.nodes_eq, Tree.nodes_eq, Tree.inner_below, Tree.inner_below, List.map_append, List.sum_append]
      change above.nodes gap.id + {parent} + gap.siblings + ({leftOld} + _) + ({rightOld} + _) = _
      simp only [rest]
      abel
    have moved : (([child].map (Tree.nodes rightId)).sum : Multiset BPlusTreeNode) = child.nodes rightId := by
      rw [List.map_singleton, List.sum_singleton]
    rw [moved] at two
    refine two.write leftOld ({parent} + {rightOld} + rest + child.nodes rightId) (by abel) rfl
      (goodNewLeft.fits gap.id) fun later three => ?_
    refine three.write rightOld ({parent} + {newLeft.node gap.id} + rest + child.nodes rightId) ?_ rfl
      (goodNewRight.fits gap.id) fun later four => ?_
    · change {newLeft.node gap.id} + _ = _
      abel
    have goodPair := sized.pair_shaped last few many goodNewLeft goodNewRight
    refine four.writeAs (goodPair.fits above.parentId) (Gap.pair_node last rfl rfl) parent
      ({newRight.node gap.id} + {newLeft.node gap.id} + rest + child.nodes rightId) ?_ rfl fun later five => ?_
    · change {newRight.node gap.id} + _ = _
      abel
    have joined : newLeft.word ++ .sep last :: newRight.word =
        (Tree.inner leftId (keys ++ [last]) (children ++ [child])).word ++
          .sep separator :: (Tree.inner rightId rightKeys rightChildren).word := by
      rw [Tree.join_word, Tree.join_word, List.append_assoc, List.append_assoc]
      · rfl
      · rw [List.length_append, List.length_singleton, List.length_append, List.length_singleton, leftSizes]
      · exact Nat.succ.inj leftSizes
    refine .inl ⟨rfl, ?_⟩
    rw [← sized.pair_congr joined]
    refine Rooted.of_pair shaped goodPair (five.cast ?_)
    rw [pairNodes, newLeft.nodes_eq, newRight.nodes_eq, Tree.inner_below, Tree.inner_below, List.map_cons, List.sum_cons]
    change _ = above.nodes gap.id + _ + gap.siblings + ({newLeft.node gap.id} + _) + ({newRight.node gap.id} + _)
    simp only [rest]
    abel
  · rw [if_neg rich]
    exact .inr ⟨rfl, not_lt.mp rich, one⟩

theorem borrowInnerRight_spec (shaped : above.Shaped) (sized : gap.Sized) (few : above.least ≤ gap.count + 1)
    (many : gap.count + 1 ≤ maxKeys) (goodRight : right.Shaped (maxKeys / 2)) (poor : left.Shaped (maxKeys / 2 - 1))
    (short : (left.node gap.id).keys.length < maxKeys / 2)
    (holding : Holding store (above.rootId gap.id) (pairNodes above gap left separator right) base) :
    Proceeds (borrowInnerRight ((gap.pair left separator right).node above.parentId) (left.node gap.id)
      gap.before.length) (fun moved later =>
        (moved = true ∧ Rooted later base (above.left ++ ((gap.pair left separator right).word ++ above.right))) ∨
        (moved = false ∧ (right.node gap.id).keys.length ≤ maxKeys / 2 ∧
          Holding later (above.rootId gap.id) (pairNodes above gap left separator right) base)) store := by
  have inside : gap.before.length + 1 < ((gap.pair left separator right).node above.parentId).children.length := by
    rw [Gap.pair_ids]
    simp only [List.length_append, List.length_map, List.length_cons]
    omega
  rw [borrowInnerRight, if_pos inside]
  simp only [Gap.get_right, sized.get_key, sized.set_key, checked_some]
  have rightMember : right.node gap.id ∈ pairNodes above gap left separator right :=
    Multiset.mem_add.mpr (.inr (right.mem_nodes _))
  refine holding.read rightMember (Tree.node_pageId right).symm fun later one => ?_
  by_cases rich : (right.node gap.id).keys.length > maxKeys / 2
  · rw [if_pos rich]
    obtain ⟨leftId, leftKeys, leftChildren, rfl⟩ := left.exists_inner
    obtain ⟨rightId, rightKeys, rightChildren, rfl⟩ := right.exists_inner
    obtain ⟨-, rightMost, rightSizes, rightGood⟩ := Tree.inner_shaped.mp goodRight
    obtain ⟨least, -, leftSizes, leftGood⟩ := Tree.inner_shaped.mp poor
    change rightKeys.length > maxKeys / 2 at rich
    change leftKeys.length < maxKeys / 2 at short
    obtain ⟨first, keys, rfl⟩ := List.exists_cons_of_length_pos (Nat.zero_lt_of_lt rich)
    obtain ⟨child, children, rfl⟩ := List.exists_cons_of_length_eq_add_one rightSizes
    rw [List.length_cons] at rich rightMost
    simp only [List.length_cons] at rightSizes
    let newLeft : Tree (height + 1) := .inner leftId (leftKeys ++ [separator]) (leftChildren ++ [child])
    let newRight : Tree (height + 1) := .inner rightId keys children
    have goodNewRight : newRight.Shaped (maxKeys / 2) :=
      Tree.inner_shaped.mpr ⟨Nat.le_of_lt_succ rich, by omega, by omega,
        fun other member => rightGood other (List.mem_cons_of_mem _ member)⟩
    have goodNewLeft : newLeft.Shaped (maxKeys / 2) := by
      refine Tree.inner_shaped.mpr ⟨?_, ?_, ?_, fun other member => ?_⟩
      · rw [List.length_append, List.length_singleton]
        omega
      · rw [List.length_append, List.length_singleton]
        unfold maxKeys at short ⊢
        omega
      · simp only [List.length_append, List.length_singleton, leftSizes]
      · rcases List.mem_append.mp member with outer | inner
        · exact leftGood other outer
        · exact rightGood other (List.mem_singleton.mp inner ▸ List.mem_cons_self)
    have ids : ((Tree.inner rightId (first :: keys) (child :: children)).node gap.id).children =
        child.id :: children.map Tree.id := rfl
    have rightNode : ((Tree.inner rightId (first :: keys) (child :: children)).node gap.id).keys = first :: keys := rfl
    simp only [ids, rightNode, List.head?_cons, eraseAt?_cons, checked_some, Tree.node_pageId]
    have goodChild : ∀ other ∈ [child], other.Shaped (maxKeys / 2) := fun other member =>
      rightGood other (List.mem_singleton.mp member ▸ List.mem_cons_self)
    let rest := above.nodes gap.id + gap.siblings + (leftChildren.map (Tree.nodes leftId)).sum +
      (children.map (Tree.nodes rightId)).sum
    let leftOld := (Tree.inner leftId leftKeys leftChildren).node gap.id
    let rightOld := (Tree.inner rightId (first :: keys) (child :: children)).node gap.id
    let parent := (gap.pair (Tree.inner leftId leftKeys leftChildren) separator
      (Tree.inner rightId (first :: keys) (child :: children))).node above.parentId
    refine (setChildrenParent_spec goodChild rightId leftId ({parent} + {leftOld} + {rightOld} + rest)
      (one.cast ?_)).seq fun _ later two => ?_
    · rw [pairNodes, Tree.nodes_eq, Tree.nodes_eq, Tree.inner_below, Tree.inner_below, List.map_cons, List.sum_cons]
      change above.nodes gap.id + {parent} + gap.siblings + ({leftOld} + _) + ({rightOld} + _) = _
      simp only [rest, List.map_singleton, List.sum_singleton]
      abel
    have moved : (([child].map (Tree.nodes leftId)).sum : Multiset BPlusTreeNode) = child.nodes leftId := by
      rw [List.map_singleton, List.sum_singleton]
    rw [moved] at two
    refine two.writeAs (goodNewLeft.fits gap.id) ?_ leftOld ({parent} + {rightOld} + rest + child.nodes leftId)
      (by abel) rfl fun later three => ?_
    · simp [newLeft, Tree.inner_node]
    refine three.write rightOld ({parent} + {newLeft.node gap.id} + rest + child.nodes leftId) (by abel) rfl
      (goodNewRight.fits gap.id) fun later four => ?_
    have goodPair := sized.pair_shaped first few many goodNewLeft goodNewRight
    refine four.writeAs (goodPair.fits above.parentId) (Gap.pair_node first rfl rfl) parent
      ({newRight.node gap.id} + {newLeft.node gap.id} + rest + child.nodes leftId) ?_ rfl fun later five => ?_
    · change {newRight.node gap.id} + _ = _
      abel
    have joined : newLeft.word ++ .sep first :: newRight.word = (Tree.inner leftId leftKeys leftChildren).word ++
        .sep separator :: (Tree.inner rightId (first :: keys) (child :: children)).word := by
      rw [Tree.join_word, Tree.join_word, List.append_assoc, List.append_assoc]
      · rfl
      · exact leftSizes
      · simp only [List.length_append, List.length_singleton, leftSizes]
    refine .inl ⟨rfl, ?_⟩
    rw [← sized.pair_congr joined]
    refine Rooted.of_pair shaped goodPair (five.cast ?_)
    rw [pairNodes, newLeft.nodes_eq, newRight.nodes_eq, Tree.inner_below, Tree.inner_below, List.map_append,
      List.sum_append, List.map_singleton, List.sum_singleton]
    change _ = above.nodes gap.id + _ + gap.siblings + ({newLeft.node gap.id} + _) + ({newRight.node gap.id} + _)
    simp only [rest]
    abel
  · rw [if_neg rich]
    exact .inr ⟨rfl, not_lt.mp rich, one⟩

end Borrow

section Merge

variable {above : Context (height + 2)} {gap : Gap (Tree (height + 1))} {separator : Key} {leftId rightId : PageId}
variable {leftKeys rightKeys : List Key} {leftChildren rightChildren : List (Tree height)}

theorem joinInner_spec (sized : gap.Sized) (few : gap.count ≤ maxKeys)
    (good : (Tree.inner leftId (leftKeys ++ separator :: rightKeys) (leftChildren ++ rightChildren)).Shaped (maxKeys / 2))
    {joinedNode parentNode : BPlusTreeNode} (isJoined : joinedNode =
      (Tree.inner leftId (leftKeys ++ separator :: rightKeys) (leftChildren ++ rightChildren)).node gap.id)
    (isParent : parentNode = (gap.fill (.inner leftId (leftKeys ++ separator :: rightKeys)
      (leftChildren ++ rightChildren))).node above.parentId)
    (holding : Holding store root (pairNodes above gap (.inner leftId leftKeys leftChildren) separator
      (.inner rightId rightKeys rightChildren)) base) :
    Proceeds (do
      setChildrenParent (rightChildren.map Tree.id) leftId
      writeNode joinedNode
      writeNode parentNode
      let _ ← deletePage rightId
      return ()) (fun _ later => Holding later root (above.nodes gap.id +
        (gap.fill (.inner leftId (leftKeys ++ separator :: rightKeys) (leftChildren ++ rightChildren))).nodes
          above.parentId) base) store := by
  subst isJoined isParent
  let joined : Tree (height + 1) := .inner leftId (leftKeys ++ separator :: rightKeys) (leftChildren ++ rightChildren)
  let leftOld := (Tree.inner leftId leftKeys leftChildren).node gap.id
  let rightOld := (Tree.inner rightId rightKeys rightChildren).node gap.id
  let parent := (gap.pair (.inner leftId leftKeys leftChildren) separator
    (.inner rightId rightKeys rightChildren)).node above.parentId
  let rest := above.nodes gap.id + gap.siblings + (leftChildren.map (Tree.nodes leftId)).sum
  have moving : ∀ child ∈ rightChildren, child.Shaped (maxKeys / 2) := fun child member =>
    (Tree.inner_shaped.mp good).2.2.2 child (List.mem_append.mpr (.inr member))
  refine (setChildrenParent_spec moving rightId leftId ({parent} + {leftOld} + {rightOld} + rest)
    (holding.cast ?_)).seq fun _ later one => ?_
  · rw [pairNodes, Tree.nodes_eq, Tree.nodes_eq, Tree.inner_below, Tree.inner_below]
    change above.nodes gap.id + {parent} + gap.siblings + ({leftOld} + _) + ({rightOld} + _) = _
    simp only [rest]
    abel
  refine one.write leftOld ((rightChildren.map (Tree.nodes leftId)).sum + {parent} + {rightOld} + rest) (by abel) rfl
    (good.fits gap.id) fun later two => ?_
  have fits : ((gap.fill joined).node above.parentId).Fits :=
    (Gap.fill_shaped (sized.shaped (Nat.zero_le _) few) good).fits above.parentId
  refine two.write parent ((rightChildren.map (Tree.nodes leftId)).sum + {joined.node gap.id} + {rightOld} + rest)
    ?_ rfl fits fun later three => ?_
  · change {joined.node gap.id} + _ = _
    abel
  refine three.delete rightOld ((rightChildren.map (Tree.nodes leftId)).sum + {joined.node gap.id} + rest +
    {(gap.fill joined).node above.parentId}) (by abel) rfl fun later four => ?_
  refine four.cast ?_
  rw [Gap.fill_nodes, Gap.fill_node, Tree.nodes_eq, Tree.inner_below, List.map_append, List.sum_append]
  change _ = _ + ({(gap.node joined.id above.parentId)} + _ + ({joined.node gap.id} + _))
  simp only [rest]
  abel

theorem joined_shaped (goodLeft : (Tree.inner leftId leftKeys leftChildren).Shaped (maxKeys / 2 - 1))
    (goodRight : (Tree.inner rightId rightKeys rightChildren).Shaped (maxKeys / 2 - 1))
    (room : leftKeys.length + rightKeys.length < maxKeys) :
    (Tree.inner leftId (leftKeys ++ separator :: rightKeys) (leftChildren ++ rightChildren)).Shaped (maxKeys / 2) := by
  obtain ⟨leftLeast, -, leftSizes, leftGood⟩ := Tree.inner_shaped.mp goodLeft
  obtain ⟨rightLeast, -, rightSizes, rightGood⟩ := Tree.inner_shaped.mp goodRight
  unfold maxKeys at leftLeast rightLeast room ⊢
  refine Tree.inner_shaped.mpr ⟨?_, ?_, ?_, fun child member => ?_⟩
  · rw [List.length_append, List.length_cons]
    omega
  · rw [List.length_append, List.length_cons]
    unfold maxKeys
    omega
  · simp only [List.length_append, List.length_cons, leftSizes, rightSizes]
    omega
  · exact (List.mem_append.mp member).elim (leftGood child) (rightGood child)

theorem mergeInner_left (sized : gap.Sized) (few : gap.count ≤ maxKeys)
    (good : (Tree.inner leftId (leftKeys ++ separator :: rightKeys) (leftChildren ++ rightChildren)).Shaped (maxKeys / 2))
    (holding : Holding store root (pairNodes above gap (.inner leftId leftKeys leftChildren) separator
      (.inner rightId rightKeys rightChildren)) base) :
    Proceeds (mergeInner ((gap.pair (.inner leftId leftKeys leftChildren) separator
      (.inner rightId rightKeys rightChildren)).node above.parentId)
      ((Tree.inner rightId rightKeys rightChildren).node gap.id) (gap.before.length + 1))
      (fun _ later => Holding later root (above.nodes gap.id +
        (gap.fill (.inner leftId (leftKeys ++ separator :: rightKeys) (leftChildren ++ rightChildren))).nodes
          above.parentId) base) store := by
  rw [mergeInner, if_pos (Nat.succ_pos _)]
  simp only [Nat.add_sub_cancel, Gap.get_left, sized.get_key, sized.erase_key, Gap.erase_right, checked_some]
  have member : (Tree.inner leftId leftKeys leftChildren).node gap.id ∈ pairNodes above gap
      (.inner leftId leftKeys leftChildren) separator (.inner rightId rightKeys rightChildren) :=
    Multiset.mem_add.mpr (.inl (Multiset.mem_add.mpr (.inr (Tree.mem_nodes _ _))))
  refine holding.read member (Tree.node_pageId _).symm fun later one => ?_
  refine joinInner_spec sized few good ?_ (Gap.join_node rfl) one
  simp [Tree.inner_node]

theorem mergeInner_right (sized : gap.Sized) (few : gap.count ≤ maxKeys) (first : gap.before = [])
    (good : (Tree.inner leftId (leftKeys ++ separator :: rightKeys) (leftChildren ++ rightChildren)).Shaped (maxKeys / 2))
    (holding : Holding store root (pairNodes above gap (.inner leftId leftKeys leftChildren) separator
      (.inner rightId rightKeys rightChildren)) base) :
    Proceeds (mergeInner ((gap.pair (.inner leftId leftKeys leftChildren) separator
      (.inner rightId rightKeys rightChildren)).node above.parentId)
      ((Tree.inner leftId leftKeys leftChildren).node gap.id) gap.before.length)
      (fun _ later => Holding later root (above.nodes gap.id +
        (gap.fill (.inner leftId (leftKeys ++ separator :: rightKeys) (leftChildren ++ rightChildren))).nodes
          above.parentId) base) store := by
  have zero : ¬ gap.before.length > 0 := by
    rw [first]
    exact lt_irrefl 0
  rw [mergeInner, if_neg zero]
  simp only [Gap.get_right, sized.get_key, sized.erase_key, Gap.erase_right, checked_some]
  have member : (Tree.inner rightId rightKeys rightChildren).node gap.id ∈ pairNodes above gap
      (.inner leftId leftKeys leftChildren) separator (.inner rightId rightKeys rightChildren) :=
    Multiset.mem_add.mpr (.inr (Tree.mem_nodes _ _))
  refine holding.read member (Tree.node_pageId _).symm fun later one => ?_
  refine joinInner_spec sized few good ?_ (Gap.join_node rfl) one
  simp [Tree.inner_node]

end Merge

theorem pairNodes_eq (above : Context (height + 1)) (gap : Gap (Tree height)) (left : Tree height) (separator : Key)
    (right : Tree height) : pairNodes above gap left separator right =
      above.nodes gap.id + (gap.pair left separator right).nodes above.parentId := by
  rw [Tree.nodes_eq, Gap.pair_below, pairNodes]
  abel

theorem Context.under_nodes (gap : Gap (Tree height)) (above : Context (height + 1)) (tree : Tree height) :
    (Context.under gap above).nodes tree.id + tree.nodes gap.id =
      above.nodes gap.id + (gap.fill tree).nodes above.parentId := by
  rw [Context.nodes, Gap.fill_nodes]
  abel

theorem Context.least_pos (context : Context (height + 1)) : 1 ≤ context.least := by
  cases context with
  | top => exact Nat.le_min.mpr ⟨Nat.succ_pos height, le_rfl⟩
  | under gap above => exact (by decide : 1 ≤ maxKeys / 2)

theorem Gap.Shaped.after_ne_nil {gap : Gap (Tree height)} {least : Nat} (shaped : gap.Shaped least) (some : 1 ≤ least)
    (first : gap.before = []) : gap.after ≠ [] := by
  intro last
  have keys := shaped.least
  rw [shaped.before, shaped.after, first, last] at keys
  exact absurd (some.trans keys) (by simp)

/-- The tree with this gap filled, under what is above it. -/
def filled (above : Context (height + 1)) (gap : Gap (Tree height)) (tree : Tree height) : Multiset BPlusTreeNode :=
  above.nodes gap.id + (gap.fill tree).nodes above.parentId

section Rebalance

variable {above : Context (height + 2)} {gap : Gap (Tree (height + 1))} {tree : Tree (height + 1)}

def Poor (parent : PageId) (neighbour : Option (Tree height)) : Prop :=
  ∀ other, neighbour = some other → (other.node parent).keys.length ≤ maxKeys / 2

theorem borrowInnerLeft_gap (shaped : above.Shaped) (sized : gap.Shaped above.least)
    (poor : tree.Shaped (maxKeys / 2 - 1)) (short : (tree.node gap.id).keys.length < maxKeys / 2)
    (holding : Holding store (above.rootId gap.id) (filled above gap tree) base) :
    Proceeds (borrowInnerLeft (gap.node tree.id above.parentId) (tree.node gap.id) gap.before.length)
      (fun moved later =>
        (moved = true ∧ Rooted later base (above.left ++ ((gap.fill tree).word ++ above.right))) ∨
        (moved = false ∧ Poor gap.id gap.before.getLast? ∧
          Holding later (above.rootId gap.id) (filled above gap tree) base)) store := by
  by_cases first : gap.before = []
  · rw [first, List.length_nil, borrowInnerLeft, if_neg (lt_irrefl 0)]
    exact .inr ⟨rfl, fun other impossible => absurd impossible.symm (Option.some_ne_none other), holding⟩
  · obtain ⟨outer, left, separator, outerSized, goodLeft, sameId, index, count, last, fill⟩ := sized.sized.split_left first
    have few := sized.least
    have many := sized.most
    change _ ≤ gap.count at few
    change gap.count ≤ _ at many
    rw [count] at few many
    rw [filled, fill, ← sameId, ← pairNodes_eq] at holding ⊢
    rw [← sameId] at short
    rw [← Gap.fill_node, fill, index]
    refine (borrowInnerLeft_spec shaped outerSized few many goodLeft poor short holding).mono ?_
    rintro moved later (done | ⟨still, lean, kept⟩)
    · exact .inl done
    · refine .inr ⟨still, fun other found => ?_, kept⟩
      rw [last] at found
      exact Option.some.inj found ▸ lean

theorem borrowInnerRight_gap (shaped : above.Shaped) (sized : gap.Shaped above.least)
    (poor : tree.Shaped (maxKeys / 2 - 1)) (short : (tree.node gap.id).keys.length < maxKeys / 2)
    (holding : Holding store (above.rootId gap.id) (filled above gap tree) base) :
    Proceeds (borrowInnerRight (gap.node tree.id above.parentId) (tree.node gap.id) gap.before.length)
      (fun moved later =>
        (moved = true ∧ Rooted later base (above.left ++ ((gap.fill tree).word ++ above.right))) ∨
        (moved = false ∧ Poor gap.id gap.after.head? ∧
          Holding later (above.rootId gap.id) (filled above gap tree) base)) store := by
  by_cases last : gap.after = []
  · have outside : ¬ gap.before.length + 1 < (gap.node tree.id above.parentId).children.length := by
      rw [Gap.node, last, List.length_append, List.length_map]
      exact lt_irrefl _
    rw [borrowInnerRight, if_neg outside, last]
    exact .inr ⟨rfl, fun other impossible => absurd impossible.symm (Option.some_ne_none other), holding⟩
  · obtain ⟨outer, right, separator, outerSized, goodRight, sameId, index, count, first, fill⟩ := sized.sized.split_right last
    have few := sized.least
    have many := sized.most
    change _ ≤ gap.count at few
    change gap.count ≤ _ at many
    rw [count] at few many
    rw [filled, fill, ← sameId, ← pairNodes_eq] at holding ⊢
    rw [← sameId] at short
    rw [← Gap.fill_node, fill, index]
    refine (borrowInnerRight_spec shaped outerSized few many goodRight poor short holding).mono ?_
    rintro moved later (done | ⟨still, lean, kept⟩)
    · exact .inl done
    · refine .inr ⟨still, fun other found => ?_, kept⟩
      rw [first] at found
      exact Option.some.inj found ▸ lean

theorem mergeInner_gap (sized : gap.Shaped above.least) (poor : tree.Shaped (maxKeys / 2 - 1))
    (short : (tree.node gap.id).keys.length < maxKeys / 2) (leanLeft : Poor gap.id gap.before.getLast?)
    (leanRight : Poor gap.id gap.after.head?) (holding : Holding store root (filled above gap tree) base) :
    Proceeds (mergeInner (gap.node tree.id above.parentId) (tree.node gap.id) gap.before.length)
      (fun _ later => ∃ (outer : Gap (Tree (height + 1))) (joined : Tree (height + 1)), outer.id = gap.id ∧
        (outer.fill joined).Shaped (above.least - 1) ∧ (outer.fill joined).word = (gap.fill tree).word ∧
          Holding later root (filled above outer joined) base) store := by
  have few := sized.least
  have many := sized.most
  change _ ≤ gap.count at few
  change gap.count ≤ _ at many
  obtain ⟨id, keys, children, rfl⟩ := tree.exists_inner
  change keys.length < maxKeys / 2 at short
  by_cases first : gap.before = []
  · obtain ⟨outer, right, separator, outerSized, goodRight, sameId, index, count, near, fill⟩ :=
      sized.sized.split_right (sized.after_ne_nil above.least_pos first)
    obtain ⟨rightId, rightKeys, rightChildren, rfl⟩ := right.exists_inner
    have lean : rightKeys.length ≤ maxKeys / 2 := leanRight _ near
    have good : (Tree.inner id (keys ++ separator :: rightKeys) (children ++ rightChildren)).Shaped (maxKeys / 2) :=
      joined_shaped poor (goodRight.mono (Nat.sub_le _ 1)) (by unfold maxKeys at *; omega)
    rw [filled, fill, ← sameId, ← pairNodes_eq] at holding
    rw [← Gap.fill_node, fill, index, ← sameId]
    refine (mergeInner_right outerSized (by omega) (index ▸ first) good holding).mono fun _ later kept => ?_
    refine ⟨outer, .inner id (keys ++ separator :: rightKeys) (children ++ rightChildren), rfl, ?_, ?_, kept⟩
    · exact Gap.fill_shaped (outerSized.shaped (by omega) (by omega)) good
    · exact outerSized.join_congr (Tree.join_word separator (Tree.inner_shaped.mp poor).2.2.1).symm
  · obtain ⟨outer, left, separator, outerSized, goodLeft, sameId, index, count, near, fill⟩ := sized.sized.split_left first
    obtain ⟨leftId, leftKeys, leftChildren, rfl⟩ := left.exists_inner
    have lean : leftKeys.length ≤ maxKeys / 2 := leanLeft _ near
    have good : (Tree.inner leftId (leftKeys ++ separator :: keys) (leftChildren ++ children)).Shaped (maxKeys / 2) :=
      joined_shaped (goodLeft.mono (Nat.sub_le _ 1)) poor (by unfold maxKeys at *; omega)
    rw [filled, fill, ← sameId, ← pairNodes_eq] at holding
    rw [← Gap.fill_node, fill, index, ← sameId]
    refine (mergeInner_left outerSized (by omega) good holding).mono fun _ later kept => ?_
    refine ⟨outer, .inner leftId (leftKeys ++ separator :: keys) (leftChildren ++ children), rfl, ?_, ?_, kept⟩
    · exact Gap.fill_shaped (outerSized.shaped (by omega) (by omega)) good
    · exact outerSized.join_congr (Tree.join_word separator (Tree.inner_shaped.mp goodLeft).2.2.1).symm

end Rebalance

theorem handleInternalUnderflow_spec {rounds : Nat} {context : Context (height + 1)} (shaped : context.Shaped)
    {tree : Tree (height + 1)} (poor : tree.Shaped (context.least - 1)) (enough : context.depth < rounds)
    (holding : Holding store (context.rootId tree.id) (context.nodes tree.id + tree.nodes context.parentId) base) :
    Proceeds (Strict.handleInternalUnderflow rounds tree.id) (fun _ later =>
      Rooted later base (context.left ++ (tree.word ++ context.right))) store := by
  induction rounds generalizing height store with
  | zero => exact absurd enough (Nat.not_lt_zero _)
  | succ rounds ih =>
    have member : tree.node context.parentId ∈ context.nodes tree.id + tree.nodes context.parentId :=
      Multiset.mem_add.mpr (.inr (tree.mem_nodes _))
    rw [Strict.handleInternalUnderflow]
    refine holding.read member (Tree.node_pageId tree).symm fun later one => ?_
    refine one.rootCall ?_
    rw [Tree.node_pageId]
    cases context with
    | top =>
      rw [Context.rootId, if_pos rfl]
      obtain ⟨id, keys, children, rfl⟩ := tree.exists_inner
      obtain ⟨-, most, sizes, good⟩ := Tree.inner_shaped.mp poor
      by_cases single : keys = []
      · subst single
        obtain ⟨child, rfl⟩ := List.length_eq_one_iff.mp sizes
        have goodChild := good child List.mem_cons_self
        rw [if_pos (by exact ⟨rfl, List.cons_ne_nil _ _⟩)]
        change Proceeds (checked (some child.id) >>= _) _ later
        rw [checked_some]
        refine one.setRoot fun later two => ?_
        refine two.rootCall ?_
        have split : (Context.top : Context (height + 1)).nodes id + (Tree.inner id [] [child]).nodes invalidPageId =
            {child.node id} + ({(Tree.inner id [] [child]).node invalidPageId} + child.below) := by
          rw [Context.nodes, Tree.nodes_eq, Tree.inner_below, List.map_singleton, List.sum_singleton, Tree.nodes_eq]
          abel
        refine (two.cast split).read (Multiset.mem_add.mpr (.inl (Multiset.mem_singleton_self _)))
          (Tree.node_pageId child).symm fun later three => ?_
        rw [Tree.node_reparent]
        refine three.write (child.node id) _ rfl (by rw [Tree.node_pageId, Tree.node_pageId]) (goodChild.fits _)
          fun later four => ?_
        refine four.delete ((Tree.inner id [] [child]).node invalidPageId) (child.nodes invalidPageId) ?_ rfl
          fun later five => ?_
        · rw [child.nodes_eq]
          abel
        have word : (Tree.inner id [] [child]).word = child.word := weave_one
        refine ⟨height, child, goodChild.mono ((Nat.min_le_right _ _).trans (by decide)), ?_, five⟩
        rw [word, Context.left, Context.right, List.nil_append, List.append_nil]
      · rw [if_neg (by exact fun both => single both.1)]
        have some : 1 ≤ keys.length := List.length_pos_iff.mpr single
        exact Rooted.of_context shaped (Tree.inner_shaped.mpr ⟨(Nat.min_le_right _ _).trans some, most, sizes, good⟩) one
    | under gap above =>
      have parentId : (Context.under gap above).parentId = gap.id := rfl
      rw [if_neg (Holding.not_root one), parentId]
      by_cases long : (tree.node gap.id).keys.length ≥ maxKeys / 2
      · rw [if_pos long]
        obtain ⟨id, keys, children, rfl⟩ := tree.exists_inner
        obtain ⟨-, rest⟩ := Tree.inner_shaped.mp poor
        exact Rooted.of_context shaped (Tree.inner_shaped.mpr ⟨long, rest⟩) one
      · rw [if_neg long, Tree.node_parentId]
        have short := not_le.mp long
        have parentMember : gap.node tree.id above.parentId ∈ (Context.under gap above).nodes tree.id + tree.nodes gap.id :=
          Multiset.mem_add.mpr (.inl (Multiset.mem_add.mpr (.inl (Multiset.mem_add.mpr
            (.inl (Multiset.mem_singleton_self _))))))
        refine one.read parentMember rfl fun later two => ?_
        have grouped : Holding later (above.rootId gap.id)
            (({gap.node tree.id above.parentId} + above.nodes gap.id + gap.siblings) + tree.nodes gap.id) base := by
          refine two.cast ?_
          rw [Context.nodes]
          abel
        have around : (Context.under gap above).left ++ (tree.word ++ (Context.under gap above).right) =
            above.left ++ ((gap.fill tree).word ++ above.right) := by
          rw [Gap.fill_word shaped.1, Context.left, Context.right]
          simp only [List.append_assoc]
        simp only [Gap.find_eq grouped]
        rw [parentId, Context.under_nodes] at two
        rw [around]
        refine (borrowInnerLeft_gap shaped.2 shaped.1 poor short two).seq ?_
        rintro moved later (⟨rfl, done⟩ | ⟨rfl, leanLeft, three⟩)
        · exact done
        rw [if_neg Bool.false_ne_true]
        refine (borrowInnerRight_gap shaped.2 shaped.1 poor short three).seq ?_
        rintro moved later (⟨rfl, done⟩ | ⟨rfl, leanRight, four⟩)
        · exact done
        rw [if_neg Bool.false_ne_true]
        refine (mergeInner_gap shaped.1 poor short leanLeft leanRight four).seq ?_
        rintro _ later ⟨outer, joined, sameId, good, word, five⟩
        rw [← word]
        change Proceeds (Strict.handleInternalUnderflow rounds gap.id) _ later
        rw [← sameId] at five ⊢
        have deeper : (Context.under gap above).depth = above.depth + 1 := rfl
        exact ih shaped.2 good (by omega) five

end QuorumDB.Storage
