import QuorumDB.Storage.TreeMerge

/-!
Delete. A leaf that lost an entry and has too few left takes one from a neighbour or is
joined with it; in the second case its parent is looked at next.
-/

namespace QuorumDB.Storage
open PageProg SearchWord Interleave Sequence BPlusTree

variable {store : TreeStore} {root : PageId} {base : Multiset (PageId × Cell)}

def Keeps (store : TreeStore) (base : Multiset (PageId × Cell)) (contents : List (Key × Value)) : Prop :=
  ∃ word, Rooted store base word ∧ Ordered word ∧ pairs word = contents

section Leaves

variable {above : Context 1} {gap : Gap (Tree 0)} {separator : Key}
variable {old : List (Key × Value)}

def pairWord (above : Context 1) (gap : Gap (Tree 0)) (left : Leaf) (separator : Key) (right : Leaf) : List Token :=
  (Context.under gap above).left ++ .leaf left :: .sep separator :: .leaf right :: (Context.under gap above).right

theorem pairWord_eq (sized : gap.Sized) (left right : Leaf) : pairWord above gap left separator right =
    above.left ++ ((gap.pair (Tree.leaf left) separator (Tree.leaf right)).word ++ above.right) := by
  have leftWord : (Tree.leaf left).word = [.leaf left] := rfl
  have rightWord : (Tree.leaf right).word = [.leaf right] := rfl
  rw [sized.pair_word, leftWord, rightWord, pairWord, Context.left, Context.right]
  simp only [List.append_assoc, List.cons_append, List.nil_append]

theorem writePair {newLeft newRight : Leaf} {left right : Tree 0} {key : Key} {firstNode secondNode parentNode : BPlusTreeNode}
    (shaped : above.Shaped) (sized : gap.Sized) (few : above.least ≤ gap.count + 1) (many : gap.count + 1 ≤ maxKeys)
    (goodLeft : (Tree.leaf newLeft).Shaped (maxKeys / 2)) (goodRight : (Tree.leaf newRight).Shaped (maxKeys / 2))
    (sameLeft : newLeft.id = left.id) (sameRight : newRight.id = right.id)
    (isParent : parentNode = (gap.pair (Tree.leaf newLeft) key (Tree.leaf newRight)).node above.parentId)
    (written : (firstNode = (Tree.leaf newLeft).node gap.id ∧ secondNode = (Tree.leaf newRight).node gap.id))
    (ordered : Ordered (pairWord above gap newLeft key newRight))
    (holding : Holding store (above.rootId gap.id) (pairNodes above gap left separator right) base) :
    Proceeds (do
      writeNode firstNode
      writeNode secondNode
      writeNode parentNode
      return true) (fun moved later => moved = true ∧
        Keeps later base (pairs (pairWord above gap newLeft key newRight))) store := by
  obtain ⟨rfl, rfl⟩ := written
  subst isParent
  have leftBelow : left.nodes gap.id = {left.node gap.id} + 0 := rfl
  have rightBelow : right.nodes gap.id = {right.node gap.id} + 0 := rfl
  let parent := (gap.pair left separator right).node above.parentId
  refine holding.write (left.node gap.id) (above.nodes gap.id + {parent} + gap.siblings + {right.node gap.id}) ?_ ?_
    (goodLeft.fits gap.id) fun later one => ?_
  · rw [pairNodes, leftBelow, rightBelow]
    change above.nodes gap.id + {parent} + _ + _ + _ = _
    abel
  · rw [Tree.node_pageId, Tree.node_pageId]
    exact sameLeft
  refine one.write (right.node gap.id) (above.nodes gap.id + {parent} + gap.siblings + {(Tree.leaf newLeft).node gap.id})
    (by abel) ?_ (goodRight.fits gap.id) fun later two => ?_
  · rw [Tree.node_pageId, Tree.node_pageId]
    exact sameRight
  have good := sized.pair_shaped key few many goodLeft goodRight
  refine two.write parent (above.nodes gap.id + gap.siblings + {(Tree.leaf newLeft).node gap.id} +
    {(Tree.leaf newRight).node gap.id}) (by abel) rfl (good.fits above.parentId) fun later three => ?_
  refine ⟨rfl, _, Rooted.of_pair shaped good (three.cast ?_), ?_⟩
  · rw [pairNodes, Tree.nodes_eq, Tree.nodes_eq]
    change _ = _ + _ + _ + ({(Tree.leaf newLeft).node gap.id} + 0) + ({(Tree.leaf newRight).node gap.id} + 0)
    abel
  · rw [← pairWord_eq sized]
    exact ⟨ordered, rfl⟩

theorem pairs_pairWord (left right : Leaf) : pairs (pairWord above gap left separator right) =
    pairs (Context.under gap above).left ++ (left.entries ++ right.entries ++ pairs (Context.under gap above).right) := by
  simp only [pairWord, pairs_append, pairs_leaf, pairs_sep, List.append_assoc]

theorem leaf_keys (leaf : Leaf) (parent : PageId) : ((Tree.leaf leaf).node parent).keys = leaf.entries.map Prod.fst := rfl

theorem leaf_values (leaf : Leaf) (parent : PageId) : ((Tree.leaf leaf).node parent).values = leaf.entries.map Prod.snd := rfl

theorem leaf_count (tree : Tree 0) (parent : PageId) : (tree.node parent).keys.length = (Leaf.entries tree).length :=
  List.length_map _

theorem borrowLeafLeft_spec {left right : Leaf} (shaped : above.Shaped) (sized : gap.Sized)
    (few : above.least ≤ gap.count + 1) (many : gap.count + 1 ≤ maxKeys) (goodLeft : (Tree.leaf left).Shaped (maxKeys / 2))
    (most : right.entries.length < maxKeys / 2) (least : maxKeys / 2 ≤ right.entries.length + 1)
    (ordered : Ordered (pairWord above gap left separator right))
    (holding : Holding store (above.rootId gap.id)
      (pairNodes above gap (Tree.leaf left) separator (Tree.leaf { right with entries := old })) base) :
    Proceeds (borrowLeafLeft
      ((gap.pair (Tree.leaf left) separator (Tree.leaf { right with entries := old })).node above.parentId)
      ((Tree.leaf right).node gap.id) (gap.before.length + 1)) (fun moved later =>
        (moved = true ∧ Keeps later base (pairs (pairWord above gap left separator right))) ∨
        (moved = false ∧ left.entries.length ≤ maxKeys / 2 ∧ Holding later (above.rootId gap.id)
          (pairNodes above gap (Tree.leaf left) separator (Tree.leaf { right with entries := old })) base)) store := by
  rw [borrowLeafLeft, if_pos (Nat.succ_pos _)]
  simp only [Nat.add_sub_cancel, Gap.get_left, sized.set_key, checked_some]
  have leftMember : (Tree.leaf left).node gap.id ∈
      pairNodes above gap (Tree.leaf left) separator (Tree.leaf { right with entries := old }) :=
    Multiset.mem_add.mpr (.inl (Multiset.mem_add.mpr (.inr (Tree.mem_nodes _ _))))
  refine holding.read leftMember (Tree.node_pageId _).symm fun later one => ?_
  rw [leaf_keys, leaf_values, List.length_map]
  by_cases rich : left.entries.length > maxKeys / 2
  · rw [if_pos rich]
    obtain ⟨leftId, leftEntries, other⟩ := left
    obtain ⟨rightId, entries, next⟩ := right
    obtain rfl : other = rightId := ordered.neighbours
    change leftEntries.length > maxKeys / 2 at rich
    obtain ⟨front, last, rfl⟩ := exists_last (Nat.zero_lt_of_lt rich)
    rw [List.length_append, List.length_singleton] at rich
    obtain ⟨before, pen, rfl⟩ := exists_last (show 0 < front.length by unfold maxKeys at rich; omega)
    have key : (((before ++ [pen]) ++ [last]).map Prod.fst) = (before ++ [pen]).map Prod.fst ++ [last.1] := List.map_append
    have value : (((before ++ [pen]) ++ [last]).map Prod.snd) = (before ++ [pen]).map Prod.snd ++ [last.2] := List.map_append
    simp only [key, value, List.getLast?_concat, popBack?_append, checked_some]
    have moved : Ordered (pairWord above gap ⟨leftId, before ++ [pen], other⟩ last.1 ⟨other, last :: entries, next⟩) :=
      ordered.shift (by rw [List.append_assoc _ [last], List.singleton_append])
    have same : pairs (pairWord above gap ⟨leftId, before ++ [pen], other⟩ last.1 ⟨other, last :: entries, next⟩) =
        pairs (pairWord above gap ⟨leftId, (before ++ [pen]) ++ [last], other⟩ separator ⟨other, entries, next⟩) := by
      simp only [pairs_pairWord, List.append_assoc, List.cons_append, List.nil_append]
    have leftMost := (Tree.leaf_shaped.mp goodLeft).2
    change ((before ++ [pen]) ++ [last]).length ≤ maxKeys at leftMost
    change entries.length < maxKeys / 2 at most
    change maxKeys / 2 ≤ entries.length + 1 at least
    rw [← same]
    refine (writePair shaped sized few many ?_ ?_ ?_ ?_ ?_ ⟨?_, ?_⟩ moved one).mono fun _ _ done => .inl done
    · refine Tree.leaf_shaped.mpr ⟨Nat.le_of_lt_succ rich, ?_⟩
      change (before ++ [pen]).length ≤ maxKeys
      rw [List.length_append, List.length_singleton] at leftMost
      omega
    · refine Tree.leaf_shaped.mpr ⟨least, ?_⟩
      change (last :: entries).length ≤ maxKeys
      rw [List.length_cons]
      unfold maxKeys at most ⊢
      omega
    · rfl
    · rfl
    · exact Gap.pair_node last.1 rfl rfl
    · rfl
    · rfl
  · rw [if_neg rich]
    exact .inr ⟨rfl, not_lt.mp rich, one⟩

theorem borrowLeafRight_spec {left right : Leaf} (shaped : above.Shaped) (sized : gap.Sized)
    (few : above.least ≤ gap.count + 1) (many : gap.count + 1 ≤ maxKeys) (goodRight : (Tree.leaf right).Shaped (maxKeys / 2))
    (most : left.entries.length < maxKeys / 2) (least : maxKeys / 2 ≤ left.entries.length + 1)
    (ordered : Ordered (pairWord above gap left separator right))
    (holding : Holding store (above.rootId gap.id)
      (pairNodes above gap (Tree.leaf { left with entries := old }) separator (Tree.leaf right)) base) :
    Proceeds (borrowLeafRight
      ((gap.pair (Tree.leaf { left with entries := old }) separator (Tree.leaf right)).node above.parentId)
      ((Tree.leaf left).node gap.id) gap.before.length) (fun moved later =>
        (moved = true ∧ Keeps later base (pairs (pairWord above gap left separator right))) ∨
        (moved = false ∧ right.entries.length ≤ maxKeys / 2 ∧ Holding later (above.rootId gap.id)
          (pairNodes above gap (Tree.leaf { left with entries := old }) separator (Tree.leaf right)) base)) store := by
  have inside : gap.before.length + 1 <
      ((gap.pair (Tree.leaf { left with entries := old }) separator (Tree.leaf right)).node above.parentId).children.length := by
    rw [Gap.pair_ids]
    simp only [List.length_append, List.length_map, List.length_cons]
    omega
  rw [borrowLeafRight, if_pos inside]
  simp only [Gap.get_right, sized.set_key, checked_some]
  have rightMember : (Tree.leaf right).node gap.id ∈
      pairNodes above gap (Tree.leaf { left with entries := old }) separator (Tree.leaf right) :=
    Multiset.mem_add.mpr (.inr (Tree.mem_nodes _ _))
  refine holding.read rightMember (Tree.node_pageId _).symm fun later one => ?_
  rw [leaf_keys, leaf_values, List.length_map]
  by_cases rich : right.entries.length > maxKeys / 2
  · rw [if_pos rich]
    obtain ⟨leftId, entries, other⟩ := left
    obtain ⟨rightId, rightEntries, next⟩ := right
    obtain rfl : other = rightId := ordered.neighbours
    change rightEntries.length > maxKeys / 2 at rich
    obtain ⟨first, rest, rfl⟩ := List.exists_cons_of_length_pos (Nat.zero_lt_of_lt rich)
    rw [List.length_cons] at rich
    obtain ⟨second, after, rfl⟩ := List.exists_cons_of_length_pos (show 0 < rest.length by unfold maxKeys at rich; omega)
    simp only [List.map_cons, List.head?_cons, eraseAt?_cons, checked_some]
    have moved : Ordered (pairWord above gap ⟨leftId, entries ++ [first], other⟩ second.1 ⟨other, second :: after, next⟩) :=
      ordered.shift (by rw [List.append_assoc, List.singleton_append])
    have same : pairs (pairWord above gap ⟨leftId, entries ++ [first], other⟩ second.1 ⟨other, second :: after, next⟩) =
        pairs (pairWord above gap ⟨leftId, entries, other⟩ separator ⟨other, first :: second :: after, next⟩) := by
      simp only [pairs_pairWord, List.append_assoc, List.cons_append, List.nil_append]
    have rightMost := (Tree.leaf_shaped.mp goodRight).2
    change (first :: second :: after).length ≤ maxKeys at rightMost
    change entries.length < maxKeys / 2 at most
    change maxKeys / 2 ≤ entries.length + 1 at least
    rw [← same]
    refine (writePair shaped sized few many ?_ ?_ ?_ ?_ ?_ ⟨?_, ?_⟩ moved one).mono fun _ _ done => .inl done
    · refine Tree.leaf_shaped.mpr ⟨?_, ?_⟩
      · change _ ≤ (entries ++ [first]).length
        rw [List.length_append, List.length_singleton]
        exact least
      · change (entries ++ [first]).length ≤ maxKeys
        rw [List.length_append, List.length_singleton]
        unfold maxKeys at most ⊢
        omega
    · refine Tree.leaf_shaped.mpr ⟨Nat.le_of_lt_succ rich, ?_⟩
      change (second :: after).length ≤ maxKeys
      rw [List.length_cons] at rightMost
      omega
    · rfl
    · rfl
    · exact Gap.pair_node second.1 rfl rfl
    · simp [Tree.node]
    · rfl
  · rw [if_neg rich]
    exact .inr ⟨rfl, not_lt.mp rich, one⟩

theorem joinLeaf_spec {joined : Leaf} {left : Tree 0} (right : Tree 0) {joinedNode parentNode : BPlusTreeNode}
    (sized : gap.Sized) (few : gap.count ≤ maxKeys) (good : (Tree.leaf joined).Shaped (maxKeys / 2)) (same : joined.id = left.id)
    (isJoined : joinedNode = (Tree.leaf joined).node gap.id)
    (isParent : parentNode = (gap.fill (Tree.leaf joined)).node above.parentId)
    (holding : Holding store root (pairNodes above gap left separator right) base) :
    Proceeds (do
      writeNode joinedNode
      writeNode parentNode
      let _ ← deletePage right.id
      return ()) (fun _ later => Holding later root (filled above gap (Tree.leaf joined)) base) store := by
  subst isJoined isParent
  let parent := (gap.pair left separator right).node above.parentId
  have leftBelow : left.nodes gap.id = {left.node gap.id} + 0 := rfl
  have rightBelow : right.nodes gap.id = {right.node gap.id} + 0 := rfl
  refine holding.write (left.node gap.id) (above.nodes gap.id + {parent} + gap.siblings + {right.node gap.id}) ?_ ?_
    (good.fits gap.id) fun later one => ?_
  · rw [pairNodes, leftBelow, rightBelow]
    change above.nodes gap.id + {parent} + _ + _ + _ = _
    abel
  · rw [Tree.node_pageId, Tree.node_pageId]
    exact same
  refine one.write parent (above.nodes gap.id + gap.siblings + {right.node gap.id} + {(Tree.leaf joined).node gap.id})
    (by abel) rfl ((Gap.fill_shaped (sized.shaped (Nat.zero_le _) few) good).fits above.parentId) fun later two => ?_
  refine two.delete (right.node gap.id) ({(gap.fill (Tree.leaf joined)).node above.parentId} + above.nodes gap.id +
    gap.siblings + {(Tree.leaf joined).node gap.id}) (by abel) (Tree.node_pageId right).symm fun later three => ?_
  refine three.cast ?_
  rw [filled, Tree.nodes_eq, Gap.fill_below]
  change _ = _ + (_ + (_ + ({(Tree.leaf joined).node gap.id} + 0)))
  abel

theorem mergeLeaf_left {left right : Leaf} (sized : gap.Sized) (few : gap.count ≤ maxKeys)
    (good : (Tree.leaf ⟨left.id, left.entries ++ right.entries, right.next⟩).Shaped (maxKeys / 2))
    (holding : Holding store root
      (pairNodes above gap (Tree.leaf left) separator (Tree.leaf { right with entries := old })) base) :
    Proceeds (mergeLeaf
      ((gap.pair (Tree.leaf left) separator (Tree.leaf { right with entries := old })).node above.parentId)
      ((Tree.leaf right).node gap.id) (gap.before.length + 1)) (fun _ later =>
        Holding later root (filled above gap (Tree.leaf ⟨left.id, left.entries ++ right.entries, right.next⟩)) base)
      store := by
  rw [mergeLeaf, if_pos (Nat.succ_pos _)]
  simp only [Nat.add_sub_cancel, Gap.get_left, sized.erase_key, Gap.erase_right, checked_some]
  have leftMember : (Tree.leaf left).node gap.id ∈
      pairNodes above gap (Tree.leaf left) separator (Tree.leaf { right with entries := old }) :=
    Multiset.mem_add.mpr (.inl (Multiset.mem_add.mpr (.inr (Tree.mem_nodes _ _))))
  refine holding.read leftMember (Tree.node_pageId _).symm fun later one => ?_
  refine joinLeaf_spec (Tree.leaf { right with entries := old }) sized few good ?_ ?_ ?_ one
  · rfl
  · simp [Tree.node]
  · exact Gap.join_node rfl

theorem mergeLeaf_right {left right : Leaf} (sized : gap.Sized) (few : gap.count ≤ maxKeys) (first : gap.before = [])
    (good : (Tree.leaf ⟨left.id, left.entries ++ right.entries, right.next⟩).Shaped (maxKeys / 2))
    (holding : Holding store root
      (pairNodes above gap (Tree.leaf { left with entries := old }) separator (Tree.leaf right)) base) :
    Proceeds (mergeLeaf
      ((gap.pair (Tree.leaf { left with entries := old }) separator (Tree.leaf right)).node above.parentId)
      ((Tree.leaf left).node gap.id) gap.before.length) (fun _ later =>
        Holding later root (filled above gap (Tree.leaf ⟨left.id, left.entries ++ right.entries, right.next⟩)) base)
      store := by
  have zero : ¬ gap.before.length > 0 := by
    rw [first]
    exact lt_irrefl 0
  rw [mergeLeaf, if_neg zero]
  simp only [Gap.get_right, sized.erase_key, Gap.erase_right, checked_some]
  have rightMember : (Tree.leaf right).node gap.id ∈
      pairNodes above gap (Tree.leaf { left with entries := old }) separator (Tree.leaf right) :=
    Multiset.mem_add.mpr (.inr (Tree.mem_nodes _ _))
  refine holding.read rightMember (Tree.node_pageId _).symm fun later one => ?_
  refine joinLeaf_spec (Tree.leaf right) sized few good ?_ ?_ ?_ one
  · rfl
  · simp [Tree.node]
  · exact Gap.join_node rfl

variable {leaf : Leaf}

/-- The word of the whole tree, seen from a leaf of it. -/
def around (above : Context 1) (gap : Gap (Tree 0)) (leaf : Leaf) : List Token :=
  above.left ++ ((gap.fill (Tree.leaf leaf)).word ++ above.right)

theorem around_pair {outer : Gap (Tree 0)} {left : Leaf} (sized : outer.Sized)
    (fill : ∀ tree, gap.fill tree = outer.pair (Tree.leaf left) separator tree) :
    around above gap leaf = pairWord above outer left separator leaf := by
  rw [around, fill, pairWord_eq sized]

theorem around_pair_right {outer : Gap (Tree 0)} {right : Leaf} (sized : outer.Sized)
    (fill : ∀ tree, gap.fill tree = outer.pair tree separator (Tree.leaf right)) :
    around above gap leaf = pairWord above outer leaf separator right := by
  rw [around, fill, pairWord_eq sized]

/-- The parent read from its page, which does not show what the leaf lost in memory. -/
theorem parent_node (above : Context 1) (gap : Gap (Tree 0)) (leaf : Leaf) (old : List (Key × Value)) :
    gap.node leaf.id above.parentId = (gap.fill (Tree.leaf { leaf with entries := old })).node above.parentId :=
  (Gap.fill_node gap (Tree.leaf { leaf with entries := old }) above.parentId).symm

theorem borrowLeafLeft_gap (shaped : above.Shaped) (sized : gap.Shaped above.least)
    (most : leaf.entries.length < maxKeys / 2) (least : maxKeys / 2 ≤ leaf.entries.length + 1)
    (ordered : Ordered (around above gap leaf))
    (holding : Holding store (above.rootId gap.id) (filled above gap (Tree.leaf { leaf with entries := old })) base) :
    Proceeds (borrowLeafLeft (gap.node leaf.id above.parentId) ((Tree.leaf leaf).node gap.id) gap.before.length)
      (fun moved later =>
        (moved = true ∧ Keeps later base (pairs (around above gap leaf))) ∨
        (moved = false ∧ Poor gap.id gap.before.getLast? ∧ Holding later (above.rootId gap.id)
          (filled above gap (Tree.leaf { leaf with entries := old })) base)) store := by
  by_cases first : gap.before = []
  · rw [first, List.length_nil, borrowLeafLeft, if_neg (lt_irrefl 0)]
    exact .inr ⟨rfl, fun other impossible => absurd impossible.symm (Option.some_ne_none other), holding⟩
  · obtain ⟨outer, left, separator, outerSized, goodLeft, sameId, index, count, last, fill⟩ := sized.sized.split_left first
    have few := sized.least
    have many := sized.most
    change _ ≤ gap.count at few
    change gap.count ≤ _ at many
    rw [count] at few many
    rw [around_pair outerSized fill] at ordered ⊢
    rw [filled, fill, ← sameId, ← pairNodes_eq] at holding ⊢
    rw [parent_node above gap leaf old, fill, index]
    refine (borrowLeafLeft_spec shaped outerSized few many goodLeft most least ordered holding).mono ?_
    rintro moved later (done | ⟨still, lean, kept⟩)
    · exact .inl done
    · refine .inr ⟨still, fun other found => ?_, kept⟩
      rw [last] at found
      rw [← Option.some.inj found, leaf_count]
      exact lean

theorem borrowLeafRight_gap (shaped : above.Shaped) (sized : gap.Shaped above.least)
    (most : leaf.entries.length < maxKeys / 2) (least : maxKeys / 2 ≤ leaf.entries.length + 1)
    (ordered : Ordered (around above gap leaf))
    (holding : Holding store (above.rootId gap.id) (filled above gap (Tree.leaf { leaf with entries := old })) base) :
    Proceeds (borrowLeafRight (gap.node leaf.id above.parentId) ((Tree.leaf leaf).node gap.id) gap.before.length)
      (fun moved later =>
        (moved = true ∧ Keeps later base (pairs (around above gap leaf))) ∨
        (moved = false ∧ Poor gap.id gap.after.head? ∧ Holding later (above.rootId gap.id)
          (filled above gap (Tree.leaf { leaf with entries := old })) base)) store := by
  by_cases last : gap.after = []
  · have outside : ¬ gap.before.length + 1 < (gap.node leaf.id above.parentId).children.length := by
      rw [Gap.node, last, List.length_append, List.length_map]
      exact lt_irrefl _
    rw [borrowLeafRight, if_neg outside, last]
    exact .inr ⟨rfl, fun other impossible => absurd impossible.symm (Option.some_ne_none other), holding⟩
  · obtain ⟨outer, right, separator, outerSized, goodRight, sameId, index, count, first, fill⟩ := sized.sized.split_right last
    have few := sized.least
    have many := sized.most
    change _ ≤ gap.count at few
    change gap.count ≤ _ at many
    rw [count] at few many
    rw [around_pair_right outerSized fill] at ordered ⊢
    rw [filled, fill, ← sameId, ← pairNodes_eq] at holding ⊢
    rw [parent_node above gap leaf old, fill, index]
    refine (borrowLeafRight_spec shaped outerSized few many goodRight most least ordered holding).mono ?_
    rintro moved later (done | ⟨still, lean, kept⟩)
    · exact .inl done
    · refine .inr ⟨still, fun other found => ?_, kept⟩
      rw [first] at found
      rw [← Option.some.inj found, leaf_count]
      exact lean

theorem joinedLeaf_shaped {left right : Leaf} (least : maxKeys / 2 ≤ left.entries.length + right.entries.length)
    (most : left.entries.length + right.entries.length ≤ maxKeys) :
    (Tree.leaf ⟨left.id, left.entries ++ right.entries, right.next⟩).Shaped (maxKeys / 2) :=
  Tree.leaf_shaped.mpr ⟨least.trans_eq List.length_append.symm, List.length_append.trans_le most⟩

theorem around_leaf {outer : Gap (Tree 0)} (sized : outer.Sized) : around above outer leaf =
    (Context.under outer above).left ++ .leaf leaf :: (Context.under outer above).right := by
  have word : (Tree.leaf leaf).word = [.leaf leaf] := rfl
  rw [around, sized.fill_word, word, Context.left, Context.right]
  simp only [List.append_assoc, List.cons_append, List.nil_append]

theorem around_join {outer : Gap (Tree 0)} {left right : Leaf} (sized : outer.Sized)
    (ordered : Ordered (pairWord above outer left separator right)) :
    Ordered (around above outer ⟨left.id, left.entries ++ right.entries, right.next⟩) := by
  obtain ⟨leftId, leftEntries, other⟩ := left
  obtain ⟨rightId, rightEntries, next⟩ := right
  obtain rfl : other = rightId := ordered.neighbours
  rw [around_leaf sized]
  exact ordered.join

theorem pairs_around_join {outer : Gap (Tree 0)} {left right : Leaf} (sized : outer.Sized) :
    pairs (around above outer ⟨left.id, left.entries ++ right.entries, right.next⟩) =
      pairs (pairWord above outer left separator right) := by
  rw [around_leaf sized, pairs_pairWord, pairs_append, pairs_leaf]

theorem mergeLeaf_gap (sized : gap.Shaped above.least) (most : leaf.entries.length < maxKeys / 2) (leanLeft : Poor gap.id gap.before.getLast?)
    (leanRight : Poor gap.id gap.after.head?) (ordered : Ordered (around above gap leaf))
    (holding : Holding store root (filled above gap (Tree.leaf { leaf with entries := old })) base) :
    Proceeds (mergeLeaf (gap.node leaf.id above.parentId) ((Tree.leaf leaf).node gap.id) gap.before.length)
      (fun _ later => ∃ (outer : Gap (Tree 0)) (joined : Leaf), outer.id = gap.id ∧
        (outer.fill (Tree.leaf joined)).Shaped (above.least - 1) ∧ Ordered (around above outer joined) ∧
          pairs (around above outer joined) = pairs (around above gap leaf) ∧
            Holding later root (filled above outer (Tree.leaf joined)) base) store := by
  have few := sized.least
  have many := sized.most
  change _ ≤ gap.count at few
  change gap.count ≤ _ at many
  by_cases first : gap.before = []
  · obtain ⟨outer, right, separator, outerSized, goodRight, sameId, index, count, near, fill⟩ :=
      sized.sized.split_right (sized.after_ne_nil above.least_pos first)
    have lean := leanRight right near
    rw [leaf_count] at lean
    have good : (Tree.leaf ⟨leaf.id, leaf.entries ++ right.entries, right.next⟩).Shaped (maxKeys / 2) :=
      joinedLeaf_shaped ((Tree.leaf_shaped.mp goodRight).1.trans (Nat.le_add_left _ _)) (by unfold maxKeys at *; omega)
    rw [around_pair_right outerSized fill] at ordered ⊢
    rw [filled, fill, ← sameId, ← pairNodes_eq] at holding
    rw [parent_node above gap leaf old, fill, index, ← sameId]
    refine (mergeLeaf_right outerSized (by omega) (index ▸ first) good holding).mono fun _ later kept => ?_
    refine ⟨outer, ⟨leaf.id, leaf.entries ++ right.entries, right.next⟩, rfl, ?_, ?_, ?_, kept⟩
    · exact Gap.fill_shaped (outerSized.shaped (by omega) (by omega)) good
    · exact around_join outerSized ordered
    · exact pairs_around_join outerSized
  · obtain ⟨outer, left, separator, outerSized, goodLeft, sameId, index, count, near, fill⟩ := sized.sized.split_left first
    have lean := leanLeft left near
    rw [leaf_count] at lean
    have good : (Tree.leaf ⟨left.id, left.entries ++ leaf.entries, leaf.next⟩).Shaped (maxKeys / 2) :=
      joinedLeaf_shaped ((Tree.leaf_shaped.mp goodLeft).1.trans (Nat.le_add_right _ _)) (by unfold maxKeys at *; omega)
    rw [around_pair outerSized fill] at ordered ⊢
    rw [filled, fill, ← sameId, ← pairNodes_eq] at holding
    rw [parent_node above gap leaf old, fill, index, ← sameId]
    refine (mergeLeaf_left outerSized (by omega) good holding).mono fun _ later kept => ?_
    refine ⟨outer, ⟨left.id, left.entries ++ leaf.entries, leaf.next⟩, rfl, ?_, ?_, ?_, kept⟩
    · exact Gap.fill_shaped (outerSized.shaped (by omega) (by omega)) good
    · exact around_join outerSized ordered
    · exact pairs_around_join outerSized

theorem handleLeafUnderflow_spec {rounds : Nat} (shaped : (Context.under gap above).Shaped)
    (most : leaf.entries.length < maxKeys / 2) (least : maxKeys / 2 ≤ leaf.entries.length + 1)
    (enough : above.depth < rounds) (ordered : Ordered (around above gap leaf))
    (holding : Holding store (above.rootId gap.id) (filled above gap (Tree.leaf { leaf with entries := old })) base) :
    Proceeds (Strict.handleLeafUnderflow rounds ((Tree.leaf leaf).node gap.id)) (fun _ later =>
      Keeps later base (pairs (around above gap leaf))) store := by
  have parentMember : gap.node leaf.id above.parentId ∈ filled above gap (Tree.leaf { leaf with entries := old }) := by
    rw [parent_node above gap leaf old]
    exact Multiset.mem_add.mpr (.inr (Tree.mem_nodes _ _))
  rw [Strict.handleLeafUnderflow]
  refine holding.read parentMember rfl fun later one => ?_
  have grouped : Holding later (above.rootId gap.id) (({gap.node leaf.id above.parentId} + above.nodes gap.id +
      gap.siblings) + (Tree.leaf { leaf with entries := old }).nodes gap.id) base := by
    refine one.cast ?_
    rw [filled, Gap.fill_nodes]
    change _ + ({gap.node leaf.id above.parentId} + _ + _) = _
    abel
  rw [Tree.node_pageId]
  change Proceeds (Strict.find (gap.node (Tree.leaf { leaf with entries := old }).id above.parentId).children
    (Tree.leaf { leaf with entries := old }).id >>= _) _ later
  rw [Gap.find_eq grouped]
  refine (borrowLeafLeft_gap shaped.2 shaped.1 most least ordered one).seq ?_
  rintro moved later (⟨rfl, done⟩ | ⟨rfl, leanLeft, two⟩)
  · exact done
  rw [if_neg Bool.false_ne_true]
  refine (borrowLeafRight_gap shaped.2 shaped.1 most least ordered two).seq ?_
  rintro moved later (⟨rfl, done⟩ | ⟨rfl, leanRight, three⟩)
  · exact done
  rw [if_neg Bool.false_ne_true]
  refine (mergeLeaf_gap shaped.1 most leanLeft leanRight ordered three).seq ?_
  rintro _ later ⟨outer, joined, sameId, good, joinedOrdered, same, four⟩
  change Proceeds (Strict.handleInternalUnderflow rounds gap.id) _ later
  rw [← sameId] at four ⊢
  refine (handleInternalUnderflow_spec shaped.2 good enough four).mono fun _ final rooted => ?_
  exact ⟨around above outer joined, rooted, joinedOrdered, same⟩

end Leaves

theorem shrinkLeaf_spec {context : Context 0} (shaped : context.Shaped) {id next : PageId}
    {before after old : List (Key × Value)} (good : (Tree.leaf ⟨id, before ++ after, next⟩).Shaped context.least)
    {rounds : Nat} (enough : context.depth < rounds)
    (ordered : Ordered (context.left ++ .leaf ⟨id, before ++ after, next⟩ :: context.right))
    (holding : Holding store (context.rootId id)
      (context.nodes id + (Tree.leaf ⟨id, old, next⟩).nodes context.parentId) base) :
    Proceeds (do
      writeNode ((Tree.leaf ⟨id, before ++ after, next⟩).node context.parentId)
      if (before ++ after).map Prod.fst ≠ [] ∧ before.length = 0 then Strict.propagateMinimumChange rounds rounds id
      return true) (fun deleted later => deleted = true ∧
        Keeps later base (pairs (context.left ++ .leaf ⟨id, before ++ after, next⟩ :: context.right))) store := by
  refine holding.write ((Tree.leaf ⟨id, old, next⟩).node context.parentId) (context.nodes id) ?_ rfl
    (good.fits context.parentId) fun later wrote => ?_
  · change context.nodes id + ({(Tree.leaf ⟨id, old, next⟩).node context.parentId} + 0) = _
    abel
  have placed : Holding later (context.rootId (Tree.leaf ⟨id, before ++ after, next⟩).id)
      (context.nodes (Tree.leaf ⟨id, before ++ after, next⟩).id +
        (Tree.leaf ⟨id, before ++ after, next⟩).nodes context.parentId) base := by
    refine wrote.cast ?_
    change {(Tree.leaf ⟨id, before ++ after, next⟩).node context.parentId} + _ =
      context.nodes id + ({(Tree.leaf ⟨id, before ++ after, next⟩).node context.parentId} + 0)
    abel
  by_cases first : (before ++ after).map Prod.fst ≠ [] ∧ before.length = 0
  · rw [if_pos first]
    obtain ⟨nonempty, none⟩ := first
    obtain rfl := List.length_eq_zero_iff.mp none
    have filled : after ≠ [] := fun empty => nonempty (by rw [empty]; rfl)
    obtain ⟨⟨key, value⟩, others, rfl⟩ := List.exists_cons_of_ne_nil filled
    refine (propagateMinimumChange_spec shaped good rfl rfl enough (by rw [Nat.zero_add]; exact enough) placed).seq ?_
    rintro _ final ⟨raised, raising, kept⟩
    exact ⟨rfl, raising.rooted good ordered kept⟩
  · rw [if_neg first]
    exact ⟨rfl, _, Rooted.of_context shaped good placed, ordered, rfl⟩

theorem deleteFromLeaf_spec {context : Context 0} (shaped : context.Shaped) {id next : PageId}
    {before after : List (Key × Value)} {key : Key} {value : Value}
    (good : (Tree.leaf ⟨id, before ++ (key, value) :: after, next⟩).Shaped context.least)
    {rounds : Nat} (enough : context.depth < rounds)
    (ordered : Ordered (context.left ++ .leaf ⟨id, before ++ (key, value) :: after, next⟩ :: context.right))
    (holding : Holding store (context.rootId id)
      (context.nodes id + (Tree.leaf ⟨id, before ++ (key, value) :: after, next⟩).nodes context.parentId) base) :
    Proceeds (Strict.deleteFromLeaf rounds ((Tree.leaf ⟨id, before ++ (key, value) :: after, next⟩).node context.parentId)
      before.length) (fun deleted later => deleted = true ∧
        Keeps later base (pairs (context.left ++ .leaf ⟨id, before ++ after, next⟩ :: context.right))) store := by
  have keys : eraseAt? ((Tree.leaf ⟨id, before ++ (key, value) :: after, next⟩).node context.parentId).keys before.length =
      some ((before ++ after).map Prod.fst) := by
    change eraseAt? ((before ++ (key, value) :: after).map Prod.fst) before.length = _
    rw [List.map_append, List.map_cons, eraseAt?_append (List.length_map _), List.map_append]
  have values : eraseAt? ((Tree.leaf ⟨id, before ++ (key, value) :: after, next⟩).node context.parentId).values
      before.length = some ((before ++ after).map Prod.snd) := by
    change eraseAt? ((before ++ (key, value) :: after).map Prod.snd) before.length = _
    rw [List.map_append, List.map_cons, eraseAt?_append (List.length_map _), List.map_append]
  obtain ⟨least, most⟩ := Tree.leaf_shaped.mp good
  change _ ≤ (before ++ (key, value) :: after).length at least
  change (before ++ (key, value) :: after).length ≤ _ at most
  rw [List.length_append, List.length_cons] at least most
  rw [Strict.deleteFromLeaf]
  simp only [keys, values, checked_some]
  refine holding.rootCall ?_
  change Proceeds (if id = context.rootId id ∨ ((before ++ after).map Prod.fst).length ≥ maxKeys / 2 then _ else _) _ store
  rw [List.length_map, List.length_append]
  by_cases keep : id = context.rootId id ∨ before.length + after.length ≥ maxKeys / 2
  · rw [if_pos keep]
    refine shrinkLeaf_spec shaped (Tree.leaf_shaped.mpr ⟨?_, ?_⟩) enough ordered.erase holding
    · change _ ≤ (before ++ after).length
      rw [List.length_append]
      cases context with
      | top => exact Nat.zero_le _
      | under gap above => exact keep.resolve_left (Holding.not_root holding)
    · change (before ++ after).length ≤ _
      rw [List.length_append]
      omega
  · rw [if_neg keep]
    rw [not_or, not_le] at keep
    cases context with
    | top => exact absurd rfl keep.1
    | under gap above =>
      have sized := shaped.1.sized
      have deeper : (Context.under gap above).depth = above.depth + 1 := rfl
      have half : (Context.under gap above).least = maxKeys / 2 := rfl
      have inner : Holding store (above.rootId gap.id)
          (filled above gap (Tree.leaf ⟨id, before ++ (key, value) :: after, next⟩)) base :=
        holding.cast (Context.under_nodes gap above (Tree.leaf ⟨id, before ++ (key, value) :: after, next⟩))
      have lost : Ordered (around above gap ⟨id, before ++ after, next⟩) := by
        rw [around_leaf sized]
        exact ordered.erase
      rw [← around_leaf sized]
      refine (handleLeafUnderflow_spec shaped ?_ ?_ (by omega) lost inner).seq fun _ later kept => ⟨rfl, kept⟩
      · change (before ++ after).length < _
        rw [List.length_append]
        exact keep.2
      · change _ ≤ (before ++ after).length + 1
        rw [List.length_append]
        omega

/-- What Delete leaves: the pairs as they were, or without that of the key. -/
def Deleted (base : Multiset (PageId × Cell)) (contents : List (Key × Value)) (key : Key) (deleted : Bool)
    (later : TreeStore) : Prop :=
  (deleted = false ∧ Represents later base contents ∧ assoc contents key = none) ∨
  (deleted = true ∧ ∃ before value after, contents = before ++ (key, value) :: after ∧
    Represents later base (before ++ after) ∧ (∀ pair ∈ before, pair.1 < key) ∧ ∀ pair ∈ after, key < pair.1)

theorem delete_tree {height : Nat} {tree : Tree height} (good : tree.RootShaped) (ordered : Ordered tree.word)
    (holding : Holding store tree.id (tree.nodes invalidPageId) base) (key : Key) {rounds : Nat} (enough : height < rounds) :
    Proceeds (Strict.delete rounds key) (Deleted base (pairs tree.word) key) store := by
  have real := holding.nonneg (tree.mem_nodes _)
  rw [Tree.node_pageId] at real
  rw [Strict.delete]
  refine holding.rootCall ?_
  rw [if_neg real]
  refine (findLeaf_spec good ordered enough holding).seq ?_
  rintro id later ⟨context, ⟨_, entries, next⟩, rfl, located, still⟩
  refine still.read located.mem_nodes rfl fun later again => ?_
  have word : tree.word = context.left ++ .leaf ⟨id, entries, next⟩ :: context.right := located.word
  have sorted : entries.Pairwise fun one two => one.1 < two.1 := located.leaf_sorted ordered
  change Proceeds (if (entries.map Prod.fst)[lowerBound (entries.map Prod.fst) key]? = some key then
    Strict.deleteFromLeaf rounds _ (lowerBound (entries.map Prod.fst) key) else pure false) _ later
  rcases lookup_leaf sorted key with
    ⟨before, value, after, split, index, found, small, large⟩ | ⟨before, after, split, index, missing, small, large⟩
  · rw [if_pos found, ← index]
    subst split
    rw [located.nodes, located.root] at again
    rw [word] at ordered
    refine (deleteFromLeaf_spec located.shaped located.good (located.depth_eq.trans_lt enough) ordered again).mono ?_
    rintro deleted final ⟨rfl, shrunk, rooted, shrunkOrdered, same⟩
    have represents := Represents.tree rooted shrunkOrdered
    rw [same, pairs_append, pairs_leaf] at represents
    refine .inr ⟨rfl, pairs context.left ++ before, value, after ++ pairs context.right, ?_, ?_, ?_, ?_⟩
    · rw [word, pairs_append, pairs_leaf]
      simp only [List.append_assoc, List.cons_append]
    · simp only [List.append_assoc] at represents ⊢
      exact represents
    · intro pair member
      exact (List.mem_append.mp member).elim (located.left_pairs pair) (small pair)
    · intro pair member
      exact (List.mem_append.mp member).elim (large pair) (located.right_pairs pair)
  · rw [if_neg missing]
    refine .inl ⟨rfl, .tree ⟨height, tree, good, rfl, again⟩ ordered, ?_⟩
    rw [located.assoc_eq]
    subst split
    refine assoc_none.mpr fun pair member => ?_
    exact (List.mem_append.mp member).elim (fun inside => (small pair inside).ne) fun inside => (large pair inside).ne'

theorem delete_finds {contents : List (Key × Value)} (represents : Represents store base contents) (key : Key)
    {rounds : Nat} (enough : contents.length + 1 < rounds) :
    Proceeds (Strict.delete rounds key) (Deleted base contents key) store := by
  cases represents with
  | empty root holds =>
    have holding : Holding store invalidPageId 0 base := ⟨root, by rwa [Multiset.map_zero, zero_add]⟩
    rw [Strict.delete]
    refine holding.rootCall ?_
    rw [if_pos rfl]
    exact .inl ⟨rfl, .empty root holds, rfl⟩
  | @tree word rooted ordered =>
    obtain ⟨height, tree, good, rfl, holding⟩ := rooted
    have low := good.height_le
    exact delete_tree good ordered holding key (by omega)

theorem delete_spec {contents : List (Key × Value)} (represents : Represents store base contents) (key : Key)
    {rounds : Nat} (enough : contents.length + 1 < rounds) :
    Proceeds (BPlusTree.delete rounds key) (Deleted base contents key) store :=
  ((delete_finds represents key enough).plain (delete_finding rounds key)).2

end QuorumDB.Storage
