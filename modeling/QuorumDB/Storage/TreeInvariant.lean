import QuorumDB.Storage.TreeRun

/-!
The representation invariant of the tree, in terms of what its pages hold: after every
sequence of calls they form a B+ tree with parent links and page identifiers in order.
-/

namespace QuorumDB.Storage
open Program PageProg SearchWord Interleave

variable {store : TreeStore} {base : Multiset (PageId × Cell)} {rounds height least : Nat}

def storedNode (storage : BufferedDisk) (pageId : PageId) : Option BPlusTreeNode :=
  match deserializeNode (storage.content pageId) with
  | .ok node => some node
  | .error _ => none

/-- The pages under a page form a tree of this height, made of these pages and with these
keys in it, separators included. -/
inductive TreeAt (page : PageId → Option BPlusTreeNode) :
    (height least : Nat) → (parent pageId : PageId) → List PageId → List Key → Prop
  | leaf {least : Nat} {parent pageId : PageId} {node : BPlusTreeNode}
      (stored : page pageId = some node) (isLeaf : node.isLeaf = true)
      (named : node.pageId = pageId) (parented : node.parentId = parent)
      (few : least ≤ node.keys.length) (many : node.keys.length ≤ maxKeys)
      (increasing : node.keys.Pairwise (· < ·)) (paired : node.values.length = node.keys.length) :
      TreeAt page 0 least parent pageId [pageId] node.keys
  | inner {height least : Nat} {parent pageId : PageId} {node : BPlusTreeNode}
      {pages : List (List PageId)} {keys : List (List Key)}
      (stored : page pageId = some node) (isInner : node.isLeaf = false)
      (named : node.pageId = pageId) (parented : node.parentId = parent)
      (few : least ≤ node.keys.length) (many : node.keys.length ≤ maxKeys)
      (increasing : node.keys.Pairwise (· < ·)) (childCount : node.children.length = node.keys.length + 1)
      (pagesCount : pages.length = node.children.length) (keysCount : keys.length = node.children.length)
      (below : ∀ (index : Nat) (child : PageId) (childPages : List PageId) (childKeys : List Key), node.children[index]? = some child →
        pages[index]? = some childPages → keys[index]? = some childKeys →
          TreeAt page height (maxKeys / 2) pageId child childPages childKeys)
      (left : ∀ (index : Nat) (separator : Key), node.keys[index]? = some separator → ∀ other ≤ index, ∀ childKeys : List Key,
        keys[other]? = some childKeys → ∀ key ∈ childKeys, key < separator)
      (right : ∀ (index : Nat) (separator : Key), node.keys[index]? = some separator → ∀ other > index, ∀ childKeys : List Key,
        keys[other]? = some childKeys → ∀ key ∈ childKeys, separator ≤ key) :
      TreeAt page (height + 1) least parent pageId (pageId :: pages.flatten) (node.keys ++ keys.flatten)

/-- No root yet, or a tree of distinct pages under the root, which has no parent and may be
an empty leaf or an inner node with one key. -/
def TreeStore.WellFormed (store : TreeStore) : Prop :=
  store.rootPageId = invalidPageId ∨ ∃ height pages keys,
    TreeAt (storedNode store.storage) height (min height 1) invalidPageId store.rootPageId pages keys ∧ pages.Nodup

namespace Tree

def pages : {height : Nat} → Tree height → List PageId
  | 0, leaf => [Leaf.id leaf]
  | _ + 1, inner => Inner.id inner :: ((Inner.children inner).map pages).flatten

def allKeys : {height : Nat} → Tree height → List Key
  | 0, leaf => (Leaf.entries leaf).map Prod.fst
  | _ + 1, inner => Inner.keys inner ++ ((Inner.children inner).map allKeys).flatten

theorem pages_eq {height : Nat} (tree : Tree height) (parent : PageId) :
    (tree.pages : Multiset PageId) = (tree.nodes parent).map BPlusTreeNode.pageId := by
  induction height generalizing parent with
  | zero => rfl
  | succ height ih =>
    obtain ⟨id, keys, children, rfl⟩ := tree.exists_inner
    rw [Tree.nodes_eq, Multiset.map_add, Multiset.map_singleton, Tree.node_pageId, Tree.inner_id, Tree.inner_below]
    change ((id :: (children.map pages).flatten : List PageId) : Multiset PageId) = _
    rw [← Multiset.cons_coe, Multiset.singleton_add]
    congr 1
    induction children with
    | nil => rfl
    | cons child children rest =>
      rw [List.map_cons, List.flatten_cons, ← Multiset.coe_add, List.map_cons, List.sum_cons, Multiset.map_add, rest,
        ih child id]

end Tree

section Words

variable {keys before after : List Key} {children left right : List (Tree height)} {child : Tree height} {separator : Key}

theorem marks_child (sizes : children.length = keys.length + 1) (member : child ∈ children) {mark : Mark Key Value}
    (inside : mark ∈ marks child.word) : mark ∈ marks (weave Token.sep Tree.word keys children) := by
  obtain ⟨before, after, rfl⟩ := List.append_of_mem member
  rw [List.length_append, List.length_cons] at sizes
  have first : (keys.take before.length).length = before.length := by
    rw [List.length_take]
    omega
  have second : (keys.drop before.length).length = after.length := by
    rw [List.length_drop]
    omega
  rw [← List.take_append_drop before.length keys, weave_middle first second, marks_append, marks_append]
  exact List.mem_append.mpr (.inr (List.mem_append.mpr (.inl inside)))

theorem sorted_child (sizes : children.length = keys.length + 1) (member : child ∈ children)
    (sorted : Sorted (marks (weave Token.sep Tree.word keys children))) : Sorted (marks child.word) := by
  obtain ⟨before, after, rfl⟩ := List.append_of_mem member
  rw [List.length_append, List.length_cons] at sizes
  have first : (keys.take before.length).length = before.length := by
    rw [List.length_take]
    omega
  have second : (keys.drop before.length).length = after.length := by
    rw [List.length_drop]
    omega
  rw [← List.take_append_drop before.length keys, weave_middle first second, marks_append, marks_append] at sorted
  exact sorted.split.2.1.split.1

theorem sides (sizes : children.length = keys.length + 1) {index : Nat} (found : keys[index]? = some separator)
    (sorted : Sorted (marks (weave Token.sep Tree.word keys children))) {other : Nat} (here : children[other]? = some child)
    {mark : Mark Key Value} (inside : mark ∈ marks child.word) :
    (other ≤ index → mark.Lt (.sep separator)) ∧ (index < other → (Mark.sep separator).Lt mark) := by
  obtain ⟨less, same⟩ := List.getElem?_eq_some_iff.mp found
  have keySplit : keys = keys.take index ++ separator :: keys.drop (index + 1) := by
    rw [← same, List.getElem_cons_drop, List.take_append_drop]
  have leftSize : (children.take (index + 1)).length = (keys.take index).length + 1 := by
    rw [List.length_take, List.length_take]
    omega
  have rightSize : (children.drop (index + 1)).length = (keys.drop (index + 1)).length + 1 := by
    rw [List.length_drop, List.length_drop]
    omega
  have split : weave Token.sep Tree.word keys children =
      weave Token.sep Tree.word (keys.take index) (children.take (index + 1)) ++
        .sep separator :: weave Token.sep Tree.word (keys.drop (index + 1)) (children.drop (index + 1)) := by
    rw [← weave_join leftSize, ← keySplit, List.take_append_drop]
  rw [split, marks_append, marks_sep] at sorted
  obtain ⟨-, behind, across⟩ := sorted.split
  refine ⟨fun le => ?_, fun gt => ?_⟩
  · have member : child ∈ children.take (index + 1) := by
      refine List.mem_of_getElem? (i := other) ?_
      rw [List.getElem?_take_of_lt (by omega), here]
    exact across mark (marks_child leftSize member inside) _ List.mem_cons_self
  · have member : child ∈ children.drop (index + 1) := by
      refine List.mem_of_getElem? (i := other - (index + 1)) ?_
      rw [List.getElem?_drop, show index + 1 + (other - (index + 1)) = other by omega, here]
    exact (List.pairwise_cons.mp behind).1 mark (marks_child rightSize member inside)

theorem separators_increasing (sizes : children.length = keys.length + 1)
    (sorted : Sorted (marks (weave Token.sep Tree.word keys children))) : keys.Pairwise (· < ·) := by
  induction keys generalizing children with
  | nil => exact List.Pairwise.nil
  | cons first keys ih =>
    match children, sizes with
    | child :: children, sizes =>
      rw [weave, marks_append, marks_sep] at sorted
      obtain ⟨head, rest⟩ := List.pairwise_cons.mp sorted.split.2.1
      refine List.pairwise_cons.mpr ⟨fun key member => ?_, ih (Nat.succ.inj sizes) rest⟩
      have mark : Mark.sep key ∈ marks (weave Token.sep Tree.word keys children) := by
        obtain ⟨before, after, rfl⟩ := List.append_of_mem member
        have total := Nat.succ.inj sizes
        rw [List.length_cons, List.length_append, List.length_cons] at total
        have part : (children.take (before.length + 1)).length = before.length + 1 := by
          rw [List.length_take]
          omega
        rw [← List.take_append_drop (before.length + 1) children, weave_join part, marks_append, marks_sep]
        exact List.mem_append.mpr (.inr List.mem_cons_self)
      exact head _ mark

end Words

theorem Tree.Shaped.key_mark {tree : Tree height} (shaped : tree.Shaped least) {key : Key} (member : key ∈ tree.allKeys) :
    ∃ mark ∈ marks tree.word, ∀ other : Key, (mark.Lt (.sep other) → key < other) ∧
      ((Mark.sep other).Lt mark → other ≤ key) := by
  induction height generalizing least with
  | zero =>
    obtain ⟨pair, inside, rfl⟩ := List.mem_map.mp member
    refine ⟨.entry pair.1 pair.2, ?_, fun other => ⟨fun lt => lt, fun le => le⟩⟩
    change _ ∈ (Leaf.entries tree).map (fun pair => Mark.entry pair.1 pair.2) ++ []
    rw [List.append_nil]
    exact List.mem_map.mpr ⟨pair, inside, rfl⟩
  | succ height ih =>
    obtain ⟨id, keys, children, rfl⟩ := tree.exists_inner
    obtain ⟨-, -, sizes, good⟩ := Tree.inner_shaped.mp shaped
    change key ∈ keys ++ (children.map allKeys).flatten at member
    rcases List.mem_append.mp member with own | deeper
    · refine ⟨.sep key, ?_, fun other => ⟨fun lt => lt, fun lt => le_of_lt lt⟩⟩
      obtain ⟨before, after, rfl⟩ := List.append_of_mem own
      rw [List.length_append, List.length_cons] at sizes
      have part : (children.take (before.length + 1)).length = before.length + 1 := by
        rw [List.length_take]
        omega
      rw [Tree.inner_word, ← List.take_append_drop (before.length + 1) children, weave_join part, marks_append, marks_sep]
      exact List.mem_append.mpr (.inr List.mem_cons_self)
    · obtain ⟨list, inList, inKeys⟩ := List.mem_flatten.mp deeper
      obtain ⟨child, inside, rfl⟩ := List.mem_map.mp inList
      obtain ⟨mark, found, bounds⟩ := ih (good child inside) inKeys
      exact ⟨mark, marks_child sizes inside found, bounds⟩

theorem entries_increasing {leaf : Leaf} (sorted : Sorted (marks [.leaf leaf])) :
    (leaf.entries.map Prod.fst).Pairwise (· < ·) := by
  have pairs := sorted.entries
  rw [marks_leaf, marks_nil, List.append_nil, entries_leaf] at pairs
  exact List.pairwise_map.mpr pairs

theorem Tree.Shaped.treeAt {tree : Tree height} (shaped : tree.Shaped least) (sorted : Sorted (marks tree.word))
    {page : PageId → Option BPlusTreeNode} {parent : PageId}
    (stored : ∀ node ∈ tree.nodes parent, page node.pageId = some node) :
    TreeAt page height least parent tree.id tree.pages tree.allKeys := by
  have root := stored _ (tree.mem_nodes parent)
  rw [Tree.node_pageId] at root
  induction height generalizing least parent with
  | zero =>
    refine .leaf root rfl (Tree.node_pageId tree) (Tree.node_parentId tree) ?_ ?_ (entries_increasing sorted) ?_
    · exact shaped.1.trans_eq (List.length_map _).symm
    · exact (List.length_map _).trans_le shaped.2
    · exact (List.length_map _).trans (List.length_map _).symm
  | succ height ih =>
    obtain ⟨id, keys, children, rfl⟩ := tree.exists_inner
    obtain ⟨few, many, sizes, good⟩ := Tree.inner_shaped.mp shaped
    rw [Tree.inner_word] at sorted
    have childAt : ∀ (index : Nat) (child : PageId), (children.map Tree.id)[index]? = some child →
        ∃ subtree : Tree height, children[index]? = some subtree ∧ subtree.id = child := by
      intro index child found
      rw [List.getElem?_map] at found
      exact Option.map_eq_some_iff.mp found
    refine TreeAt.inner root rfl rfl rfl few many (separators_increasing sizes sorted) ?_ ?_ ?_ ?_ ?_ ?_
    · exact (List.length_map _).trans sizes
    · exact (List.length_map _).trans (List.length_map _).symm
    · exact (List.length_map _).trans (List.length_map _).symm
    · intro index child childPages childKeys found pagesFound keysFound
      obtain ⟨subtree, here, rfl⟩ := childAt index child found
      change (children.map Tree.pages)[index]? = some childPages at pagesFound
      change (children.map Tree.allKeys)[index]? = some childKeys at keysFound
      rw [List.getElem?_map, here] at pagesFound keysFound
      obtain rfl := Option.some.inj pagesFound
      obtain rfl := Option.some.inj keysFound
      have member := List.mem_of_getElem? here
      have inside : ∀ node ∈ subtree.nodes id, page node.pageId = some node := fun node below =>
        stored node (Multiset.mem_add.mpr (.inr (Tree.child_nodes member below)))
      have first := inside _ (subtree.mem_nodes id)
      rw [Tree.node_pageId] at first
      exact ih (good subtree member) (sorted_child sizes member sorted) inside first
    · intro index separator found other le childKeys keysFound key member
      change (children.map Tree.allKeys)[other]? = some childKeys at keysFound
      rw [List.getElem?_map] at keysFound
      obtain ⟨subtree, here, rfl⟩ := Option.map_eq_some_iff.mp keysFound
      obtain ⟨mark, inside, bounds⟩ := (good subtree (List.mem_of_getElem? here)).key_mark member
      exact (bounds separator).1 ((sides sizes found sorted here inside).1 le)
    · intro index separator found other gt childKeys keysFound key member
      change (children.map Tree.allKeys)[other]? = some childKeys at keysFound
      rw [List.getElem?_map] at keysFound
      obtain ⟨subtree, here, rfl⟩ := Option.map_eq_some_iff.mp keysFound
      obtain ⟨mark, inside, bounds⟩ := (good subtree (List.mem_of_getElem? here)).key_mark member
      exact (bounds separator).2 ((sides sizes found sorted here inside).2 gt)

theorem Holding.stored {root : PageId} {nodes : Multiset BPlusTreeNode} (holding : Holding store root nodes base)
    {node : BPlusTreeNode} (member : node ∈ nodes) : storedNode store.storage node.pageId = some node := by
  have shown : deserializeNode (store.storage.content node.pageId) = .ok node :=
    holding.holds.shown (nodeCell node) (Multiset.mem_add.mpr (.inl (Multiset.mem_map_of_mem nodeCell member)))
  rw [storedNode, shown]

theorem Represents.wellFormed {contents : List (Key × Value)} (represents : Represents store base contents) :
    store.WellFormed := by
  cases represents with
  | empty root holds => exact .inl root
  | tree rooted ordered =>
    obtain ⟨height, tree, good, rfl, holding⟩ := rooted
    refine .inr ⟨height, tree.pages, tree.allKeys, ?_, ?_⟩
    · rw [holding.root]
      exact good.treeAt ordered.sorted fun node member => holding.stored member
    · rw [← Multiset.coe_nodup, tree.pages_eq invalidPageId]
      exact holding.distinct

/-- The representation invariant holds after every sequence of calls. -/
theorem tree_wellFormed (fresh : store.rootPageId = invalidPageId) (owns : Owns store.storage base) (ops : List TreeOp)
    (enough : ops.length + 1 < rounds) :
    Proceeds (TreeOp.programs rounds ops) (fun _ later => later.WellFormed) store := by
  have empty : Represents store base [] := .empty fresh owns
  refine (TreeOp.programs_spec empty ops (by rw [List.length_nil]; omega)).mono ?_
  rintro answers later ⟨contents, represents, -⟩
  exact represents.wellFormed

theorem tree_wellFormed_opened : Proceeds (TreeOp.programs 4 [.insert 5 1, .delete 5]) (fun _ later => later.WellFormed)
    (TreeStore.open 1 []) :=
  tree_wellFormed rfl (opened_owns (by decide) (by decide)) _ (by decide)

end QuorumDB.Storage
