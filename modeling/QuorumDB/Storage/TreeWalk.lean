import QuorumDB.Storage.TreeInvariant

/-! A walk over the tree, page by page: the nodes it meets and the values in the leaves. -/

namespace QuorumDB.Storage
open Interleave

/-- The pages from a page down and the leaf values on the way, as often as they are met. -/
def walk (page : PageId → Option BPlusTreeNode) : Nat → PageId → Option (List PageId × List Value)
  | 0, _ => none
  | depth + 1, pageId => do
      let node ← page pageId
      if node.isLeaf then return ([pageId], node.values)
      else
        let visits ← node.children.mapM (walk page depth)
        return (pageId :: (visits.map Prod.fst).flatten, (visits.map Prod.snd).flatten)

def TreeStore.walk (store : TreeStore) (depth : Nat) : Option (List PageId × List Value) :=
  if store.rootPageId = invalidPageId then some ([], [])
  else Storage.walk (storedNode store.storage) depth store.rootPageId

section Walk

variable {height least : Nat} {keys : List Key} {children : List (Tree height)}

theorem mapM_map {First Second Third : Type} {ask : Second → Option Third} {name : First → Second} {answer : First → Third}
    {items : List First} (all : ∀ item ∈ items, ask (name item) = some (answer item)) :
    (items.map name).mapM ask = some (items.map answer) := by
  induction items with
  | nil => rfl
  | cons item items ih =>
    rw [List.map_cons, List.mapM_cons, all item List.mem_cons_self, ih fun other member => all other (List.mem_cons_of_mem _ member)]
    rfl

theorem pairs_weave (sizes : children.length = keys.length + 1) :
    pairs (weave Token.sep Tree.word keys children) = (children.map fun child => pairs child.word).flatten := by
  induction keys generalizing children with
  | nil =>
    obtain ⟨child, rfl⟩ := List.length_eq_one_iff.mp sizes
    rw [weave_one, List.map_singleton, List.flatten_singleton]
  | cons first keys ih =>
    match children, sizes with
    | child :: children, sizes =>
      rw [weave, pairs_append, pairs_sep, ih (Nat.succ.inj sizes), List.map_cons, List.flatten_cons]

theorem Tree.Shaped.walk {tree : Tree height} (shaped : tree.Shaped least) {page : PageId → Option BPlusTreeNode}
    {parent : PageId} (stored : ∀ node ∈ tree.nodes parent, page node.pageId = some node) :
    Storage.walk page (height + 1) tree.id = some (tree.pages, (pairs tree.word).map Prod.snd) := by
  have root := stored _ (tree.mem_nodes parent)
  rw [Tree.node_pageId] at root
  induction height generalizing least parent with
  | zero =>
    rw [Storage.walk, root]
    have single : ∀ leaf : Leaf, pairs [.leaf leaf] = leaf.entries := fun leaf => by
      rw [pairs_leaf, pairs_nil, List.append_nil]
    have word : pairs (Tree.word tree) = Leaf.entries tree := single tree
    rw [word]
    rfl
  | succ height ih =>
    obtain ⟨id, keys, children, rfl⟩ := tree.exists_inner
    obtain ⟨-, -, sizes, good⟩ := Tree.inner_shaped.mp shaped
    have below : ∀ child ∈ children, Storage.walk page (height + 1) child.id =
        some (child.pages, (pairs child.word).map Prod.snd) := by
      intro child member
      have inside : ∀ node ∈ child.nodes id, page node.pageId = some node := fun node within =>
        stored node (Multiset.mem_add.mpr (.inr (Tree.child_nodes member within)))
      have first := inside _ (child.mem_nodes id)
      rw [Tree.node_pageId] at first
      exact ih (good child member) inside first
    have visits := mapM_map below
    rw [Storage.walk, root, Tree.inner_word, pairs_weave sizes, List.map_flatten]
    change (do
      let visits ← (children.map Tree.id).mapM (Storage.walk page (height + 1))
      return (id :: (visits.map Prod.fst).flatten, (visits.map Prod.snd).flatten)) = _
    rw [visits, List.map_map]
    change some (id :: ((children.map _).map Prod.fst).flatten, ((children.map _).map Prod.snd).flatten) = _
    rw [List.map_map, List.map_map]
    rfl

end Walk

theorem Represents.walk {store : TreeStore} {base : Multiset (PageId × Cell)} {contents : List (Key × Value)}
    (represents : Represents store base contents) :
    ∃ depth pages, store.walk depth = some (pages, contents.map Prod.snd) ∧
      ∃ cells : Multiset (PageId × Cell), cells.map Prod.fst = (pages : Multiset PageId) ∧ Owns store.storage (cells + base) := by
  cases represents with
  | empty root holds =>
    refine ⟨0, [], if_pos root, 0, rfl, ?_⟩
    rwa [zero_add]
  | tree rooted ordered =>
    obtain ⟨height, tree, good, rfl, holding⟩ := rooted
    have real : tree.id ≠ invalidPageId := by
      have there := holding.nonneg (tree.mem_nodes invalidPageId)
      rwa [Tree.node_pageId] at there
    refine ⟨height + 1, tree.pages, ?_, (tree.nodes invalidPageId).map nodeCell, ?_, holding.holds⟩
    · rw [TreeStore.walk, holding.root, if_neg real]
      exact good.walk fun node member => holding.stored member
    · rw [tree.pages_eq invalidPageId, Multiset.map_map]
      rfl

end QuorumDB.Storage
