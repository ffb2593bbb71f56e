import QuorumDB.Storage.TreeSearch

/-!
The helpers that walk up or across the tree: SetChildrenParent moves subtrees to
another parent, PropagateMinimumChange raises the separator in front of a subtree to
its first key.
-/

namespace QuorumDB.Storage
open PageProg SearchWord Interleave Sequence BPlusTree

variable {store : TreeStore} {root : PageId} {base : Multiset (PageId × Cell)} {height : Nat}

theorem Holding.apart {nodes others : Multiset BPlusTreeNode} (holding : Holding store root (nodes + others) base)
    {one two : BPlusTreeNode} (first : one ∈ nodes) (second : two ∈ others) : one.pageId ≠ two.pageId := by
  have distinct := holding.distinct
  rw [Multiset.map_add, Multiset.nodup_add] at distinct
  exact fun same => (Multiset.disjoint_left.mp distinct.2.2) (Multiset.mem_map_of_mem _ first)
    (same ▸ Multiset.mem_map_of_mem BPlusTreeNode.pageId second)

theorem Gap.sibling_before {gap : Gap (Tree height)} {child : Tree height} (member : child ∈ gap.before) :
    child.node gap.id ∈ gap.siblings := by
  obtain ⟨left, right, split⟩ := List.append_of_mem member
  rw [Gap.siblings, split, List.map_append, List.sum_append, List.map_cons, List.sum_cons]
  exact Multiset.mem_add.mpr (.inl (Multiset.mem_add.mpr (.inr (Multiset.mem_add.mpr (.inl (child.mem_nodes _))))))

theorem Gap.find_eq {gap : Gap (Tree height)} {tree : Tree height} {parent : PageId}
    {others : Multiset BPlusTreeNode} {Result : Type} {next : Nat → PageProg Result}
    (holding : Holding store root ((others + gap.siblings) + tree.nodes gap.id) base) :
    (Strict.find (gap.node tree.id parent).children tree.id >>= next) = next gap.before.length := by
  have fresh : tree.id ∉ gap.before.map Tree.id := by
    intro inside
    obtain ⟨child, member, same⟩ := List.mem_map.mp inside
    have apart := holding.apart (Multiset.mem_add.mpr (.inr (Gap.sibling_before member))) (tree.mem_nodes gap.id)
    rw [Tree.node_pageId, Tree.node_pageId] at apart
    exact apart same
  have member : tree.id ∈ (gap.node tree.id parent).children := List.mem_append.mpr (.inr List.mem_cons_self)
  have index : position (gap.node tree.id parent).children tree.id = gap.before.length := by
    rw [Gap.node, position_append fresh, List.length_map]
  rw [Strict.find, if_pos member, index]
  rfl

theorem Gap.node_fits {gap : Gap (Tree height)} {least : Nat} (shaped : gap.Shaped least) (hole parent : PageId) :
    (gap.node hole parent).Fits := by
  refine ⟨?_, (fun impossible => nomatch impossible), fun _ => ⟨?_, rfl⟩⟩
  · rw [Gap.node, List.length_append]
    exact shaped.most
  · simp only [Gap.node, List.length_append, List.length_map, List.length_cons, shaped.before, shaped.after]
    omega

theorem setChildrenParent_spec {children : List (Tree height)} (good : ∀ child ∈ children, child.Shaped (maxKeys / 2))
    (old new : PageId) (others : Multiset BPlusTreeNode)
    (holding : Holding store root ((children.map (Tree.nodes old)).sum + others) base) :
    Proceeds (setChildrenParent (children.map Tree.id) new) (fun _ later =>
      Holding later root ((children.map (Tree.nodes new)).sum + others) base) store := by
  induction children generalizing store others with
  | nil => exact holding
  | cons child children ih =>
    rw [List.map_cons, List.sum_cons] at holding
    rw [List.map_cons, setChildrenParent, List.map_cons, List.sum_cons]
    have member : child.node old ∈ child.nodes old + (children.map (Tree.nodes old)).sum + others :=
      Multiset.mem_add.mpr (.inl (Multiset.mem_add.mpr (.inl (child.mem_nodes old))))
    refine holding.read member (Tree.node_pageId child).symm fun later still => ?_
    rw [Tree.node_reparent]
    refine still.write (child.node old) (child.below + (children.map (Tree.nodes old)).sum + others) ?_ ?_
      ((good child List.mem_cons_self).fits _) fun later moved => ?_
    · rw [Tree.nodes]
      abel
    · rw [Tree.node_pageId, Tree.node_pageId]
    · refine (ih (fun other inside => good other (List.mem_cons_of_mem _ inside)) (child.nodes new + others)
        (moved.cast ?_)).mono fun _ later done => done.cast ?_
      · rw [Tree.nodes]
        abel
      · abel

/-- The context after its last separator was raised, if it has one. -/
structure Raised (context raised : Context height) (key : Key) : Prop where
  shaped : raised.Shaped
  parentId : raised.parentId = context.parentId
  rootId : ∀ id, raised.rootId id = context.rootId id
  least : raised.least = context.least
  depth : raised.depth = context.depth
  right : raised.right = context.right
  left : raised.left = context.left ∨
    ∃ before old, context.left = before ++ [.sep old] ∧ raised.left = before ++ [.sep key]

theorem Holding.not_root {gap : Gap (Tree height)} {above : Context (height + 1)} {tree : Tree height}
    (holding : Holding store root ((Context.under gap above).nodes tree.id + tree.nodes gap.id) base) :
    tree.id ≠ (Context.under gap above).rootId tree.id := by
  obtain ⟨node, member, same⟩ := Context.rootId_mem gap above tree.id
  have apart := holding.apart member (tree.mem_nodes gap.id)
  rw [same, Tree.node_pageId] at apart
  exact apart.symm

theorem Gap.fill_first {gap : Gap (Tree height)} {tree : Tree height} {leaf : Leaf} {rest : List Token} {least : Nat}
    (shaped : gap.Shaped least) (alone : gap.before = []) (word : tree.word = .leaf leaf :: rest) :
    ∃ more, (gap.fill tree).word = .leaf leaf :: more := by
  have filled := Gap.fill_word shaped tree
  have noKeys : gap.keysBefore = [] := by
    rw [← List.length_eq_zero_iff, shaped.before, alone, List.length_nil]
  rw [alone, noKeys, weaveLeft_nil, List.nil_append, word, List.cons_append] at filled
  exact ⟨_, filled⟩

def Gap.raise (gap : Gap (Tree height)) (earlier : List Key) (key : Key) : Gap (Tree height) :=
  { gap with keysBefore := earlier ++ [key] }

theorem Gap.exists_separator {gap : Gap (Tree height)} {least : Nat} (shaped : gap.Shaped least)
    {before : List (Tree height)} {child : Tree height} (last : gap.before = before ++ [child]) :
    ∃ earlier old, gap.keysBefore = earlier ++ [old] ∧ earlier.length = before.length := by
  have both := shaped.before
  rcases List.eq_nil_or_concat gap.keysBefore with none | ⟨earlier, old, some⟩
  · rw [none, last] at both
    simp at both
  · rw [List.concat_eq_append] at some
    rw [some, last] at both
    exact ⟨earlier, old, some, by simpa using both⟩

theorem Gap.raise_shaped {gap : Gap (Tree height)} {least : Nat} (shaped : gap.Shaped least) {earlier : List Key}
    {old : Key} (keys : gap.keysBefore = earlier ++ [old]) (key : Key) : (gap.raise earlier key).Shaped least := by
  have same : (gap.raise earlier key).keysBefore.length = gap.keysBefore.length := by
    rw [keys, Gap.raise, List.length_append, List.length_append]
    rfl
  exact ⟨same.trans shaped.before, shaped.after, same ▸ shaped.least, same ▸ shaped.most, shaped.left, shaped.right⟩

theorem Gap.raise_keys {gap : Gap (Tree height)} {earlier : List Key} {old : Key} (keys : gap.keysBefore = earlier ++ [old])
    {key : Key} {id parent : PageId} :
    setAt? (gap.node id parent).keys earlier.length key = some ((gap.raise earlier key).node id parent).keys := by
  rw [Gap.node, keys, List.append_assoc, List.singleton_append, setAt?_append rfl]
  simp [Gap.raise, Gap.node]

theorem Raised.of_raise {gap : Gap (Tree height)} {above : Context (height + 1)} (shaped : (Context.under gap above).Shaped)
    {earlier : List Key} {old : Key} (keys : gap.keysBefore = earlier ++ [old]) {before : List (Tree height)}
    {child : Tree height} (last : gap.before = before ++ [child]) (sizes : earlier.length = before.length) (key : Key) :
    Raised (.under gap above) (.under (gap.raise earlier key) above) key := by
  refine ⟨⟨Gap.raise_shaped shaped.1 keys key, shaped.2⟩, rfl, fun _ => rfl, rfl, rfl, rfl, .inr ?_⟩
  refine ⟨above.left ++ (weaveLeft Token.sep Tree.word earlier before ++ child.word), old, ?_, ?_⟩
  · rw [Context.left, keys, last, weaveLeft_concat sizes]
    simp only [List.append_assoc]
  · rw [Context.left]
    change above.left ++ weaveLeft Token.sep Tree.word (earlier ++ [key]) gap.before = _
    rw [last, weaveLeft_concat sizes]
    simp only [List.append_assoc]

theorem propagateMinimumChange_spec {context : Context height} (shaped : context.Shaped) {tree : Tree height}
    (good : tree.Shaped context.least) {leaf : Leaf} {rest : List Token} (word : tree.word = .leaf leaf :: rest)
    {first : Key × Value} {others : List (Key × Value)} (entries : leaf.entries = first :: others)
    {rounds depth : Nat} (enough : context.depth < rounds) (deep : height + context.depth < depth)
    (holding : Holding store (context.rootId tree.id) (context.nodes tree.id + tree.nodes context.parentId) base) :
    Proceeds (Strict.propagateMinimumChange depth rounds tree.id) (fun _ later => ∃ raised, Raised context raised first.1 ∧
      Holding later (raised.rootId tree.id) (raised.nodes tree.id + tree.nodes raised.parentId) base) store := by
  induction context generalizing rounds store rest with
  | top =>
    obtain ⟨rounds, rfl⟩ := Nat.exists_eq_add_of_lt enough
    rw [Strict.propagateMinimumChange]
    refine holding.rootCall ?_
    rw [Context.rootId, if_pos rfl]
    exact ⟨.top, ⟨trivial, rfl, fun _ => rfl, rfl, rfl, rfl, .inl rfl⟩, holding⟩
  | @under height gap above ih =>
    obtain ⟨rounds, rfl⟩ := Nat.exists_eq_add_of_lt enough
    have deeper : (Context.under gap above).depth = above.depth + 1 := rfl
    have different := Holding.not_root holding
    rw [Strict.propagateMinimumChange]
    refine holding.rootCall ?_
    rw [if_neg different]
    refine holding.read (Multiset.mem_add.mpr (.inr (tree.mem_nodes _))) (Tree.node_pageId tree).symm fun later one => ?_
    rw [Tree.node_parentId]
    have parentMember : gap.node tree.id above.parentId ∈ (Context.under gap above).nodes tree.id + tree.nodes gap.id :=
      Multiset.mem_add.mpr (.inl (Multiset.mem_add.mpr (.inl (Multiset.mem_add.mpr
        (.inl (Multiset.mem_singleton_self _))))))
    refine one.read parentMember rfl fun later two => ?_
    have grouped : Holding later (above.rootId gap.id)
        (({gap.node tree.id above.parentId} + above.nodes gap.id + gap.siblings) + tree.nodes gap.id) base := by
      refine two.cast ?_
      rw [Context.nodes, Context.parentId]
      abel
    rw [Gap.find_eq grouped]
    rcases List.eq_nil_or_concat gap.before with alone | ⟨before, child, last⟩
    · rw [if_neg (by rw [alone, List.length_nil]; exact lt_irrefl 0)]
      obtain ⟨more, filled⟩ := Gap.fill_first shaped.1 alone word
      have start : Holding later (above.rootId (gap.fill tree).id)
          (above.nodes (gap.fill tree).id + (gap.fill tree).nodes above.parentId) base := by
        refine grouped.cast ?_
        rw [Gap.fill_id, Gap.fill_nodes]
        abel
      refine (ih shaped.2 (Gap.fill_shaped shaped.1 good) filled (by omega) (by omega) start).mono ?_
      rintro _ final ⟨raised, same, kept⟩
      refine ⟨.under gap raised, ⟨⟨?_, same.shaped⟩, rfl, fun _ => same.rootId gap.id, rfl, ?_, ?_, ?_⟩, kept.cast ?_⟩
      · exact same.least ▸ shaped.1
      · rw [Context.depth, Context.depth, same.depth]
      · rw [Context.right, Context.right, same.right]
      · have noKeys : gap.keysBefore = [] := by
          rw [← List.length_eq_zero_iff, shaped.1.before, alone, List.length_nil]
        simp only [Context.left, alone, noKeys, weaveLeft_nil, List.append_nil]
        exact same.left
      · rw [Gap.fill_id, Gap.fill_nodes, Context.nodes, Context.parentId]
        abel
    · rw [List.concat_eq_append] at last
      obtain ⟨earlier, old, keys, sizes⟩ := Gap.exists_separator shaped.1 last
      have index : gap.before.length - 1 = earlier.length := by
        rw [last, List.length_append, sizes]
        rfl
      rw [if_pos (by rw [last, List.length_append]; exact Nat.succ_pos _), index]
      have stored : ∀ node ∈ tree.below, node ∈ ({gap.node tree.id above.parentId} + above.nodes gap.id +
          gap.siblings) + tree.nodes gap.id :=
        fun node below => Multiset.mem_add.mpr (.inr (Multiset.mem_add.mpr (.inr below)))
      have found : Proceeds (firstKey depth tree.id) (fun key later => key = first.1 ∧
          Holding later (above.rootId gap.id) (({gap.node tree.id above.parentId} + above.nodes gap.id +
            gap.siblings) + tree.nodes gap.id) base) later := by
        refine grouped.read (Multiset.mem_add.mpr (.inr (tree.mem_nodes _))) (Tree.node_pageId tree).symm
          fun later three => ?_
        exact firstKeyFrom_spec good stored word entries (by omega) three
      refine found.seq ?_
      rintro key later ⟨rfl, four⟩
      have reshaped := Gap.raise_shaped shaped.1 keys first.1
      rw [Gap.raise_keys keys, checked_some]
      refine four.write (gap.node tree.id above.parentId) (above.nodes gap.id + gap.siblings + tree.nodes gap.id)
        (by abel) rfl (Gap.node_fits reshaped tree.id above.parentId) fun final five => ?_
      refine ⟨.under (gap.raise earlier first.1) above, Raised.of_raise shaped keys last sizes first.1, five.cast ?_⟩
      rw [Context.nodes]
      change {(gap.raise earlier first.1).node tree.id above.parentId} + (above.nodes gap.id + gap.siblings +
        tree.nodes gap.id) = {(gap.raise earlier first.1).node tree.id above.parentId} + gap.siblings + above.nodes gap.id +
          tree.nodes gap.id
      abel

end QuorumDB.Storage
