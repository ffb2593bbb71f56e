import QuorumDB.Lib.Interleave
import QuorumDB.Storage.Cells
import Mathlib.Algebra.BigOperators.Group.Multiset.Basic
import Mathlib.Tactic.Abel

/-!
Trees as values, and a tree seen from one of its subtrees. The height is part of the
type, so all leaves of a tree are at one depth. The nodes of a tree are what its pages
hold; its word is its leaves and separators in order.
-/

namespace QuorumDB.Storage
open Interleave

structure Leaf where
  id : PageId
  entries : List (Key × Value)
  next : PageId

structure Inner (Child : Type) where
  id : PageId
  keys : List Key
  children : List Child

def Tree : Nat → Type
  | 0 => Leaf
  | height + 1 => Inner (Tree height)

/-- What stands in the word of a tree. -/
inductive Token where
  | leaf (leaf : Leaf)
  | sep (key : Key)

namespace Tree

abbrev leaf (leaf : Leaf) : Tree 0 := leaf

def inner {height : Nat} (id : PageId) (keys : List Key) (children : List (Tree height)) : Tree (height + 1) :=
  (⟨id, keys, children⟩ : Inner (Tree height))

theorem exists_inner {height : Nat} (tree : Tree (height + 1)) : ∃ id keys children, tree = inner id keys children :=
  ⟨Inner.id tree, Inner.keys tree, Inner.children tree, rfl⟩

def id : {height : Nat} → Tree height → PageId
  | 0, leaf => Leaf.id leaf
  | _ + 1, inner => Inner.id inner

def node (parent : PageId) : {height : Nat} → Tree height → BPlusTreeNode
  | 0, leaf => {
      pageId := Leaf.id leaf
      parentId := parent
      keys := (Leaf.entries leaf).map Prod.fst
      values := (Leaf.entries leaf).map Prod.snd
      nextLeaf := Leaf.next leaf }
  | _ + 1, inner => {
      isLeaf := false
      pageId := Inner.id inner
      parentId := parent
      keys := Inner.keys inner
      children := (Inner.children inner).map id }

def below : {height : Nat} → Tree height → Multiset BPlusTreeNode
  | 0, _ => 0
  | _ + 1, inner => ((Inner.children inner).map fun child =>
      {child.node (Inner.id inner)} + child.below).sum

def nodes (parent : PageId) {height : Nat} (tree : Tree height) : Multiset BPlusTreeNode :=
  {tree.node parent} + tree.below

def word : {height : Nat} → Tree height → List Token
  | 0, leaf => [.leaf leaf]
  | _ + 1, inner => weave .sep word (Inner.keys inner) (Inner.children inner)

/-- The numbers of keys are in bounds, the root with at least `least`. -/
def Shaped (least : Nat) : {height : Nat} → Tree height → Prop
  | 0, leaf => least ≤ (Leaf.entries leaf).length ∧ (Leaf.entries leaf).length ≤ maxKeys
  | _ + 1, inner => least ≤ (Inner.keys inner).length ∧ (Inner.keys inner).length ≤ maxKeys ∧
      (Inner.children inner).length = (Inner.keys inner).length + 1 ∧
      ∀ child ∈ Inner.children inner, child.Shaped (maxKeys / 2)

/-- The root may be an empty leaf, or an inner node with one key. -/
def RootShaped {height : Nat} (tree : Tree height) : Prop := tree.Shaped (min height 1)

section Basics

variable {height : Nat} {identifier parent : PageId} {keys : List Key} {children : List (Tree height)}

@[simp] theorem node_pageId (tree : Tree height) : (tree.node parent).pageId = tree.id := by
  cases height <;> rfl

@[simp] theorem node_parentId (tree : Tree height) : (tree.node parent).parentId = parent := by
  cases height <;> rfl

theorem node_reparent (tree : Tree height) (other : PageId) :
    { tree.node parent with parentId := other } = tree.node other := by
  cases height <;> rfl

theorem nodes_eq (tree : Tree height) (parent : PageId) : tree.nodes parent = {tree.node parent} + tree.below := rfl

@[simp] theorem inner_id : (inner identifier keys children).id = identifier := rfl

theorem inner_node : (inner identifier keys children).node parent =
    { isLeaf := false, pageId := identifier, parentId := parent, keys := keys, children := children.map id } := rfl

theorem inner_below : (inner identifier keys children).below = (children.map (nodes identifier)).sum := rfl

theorem inner_word : (inner identifier keys children).word = weave Token.sep word keys children := rfl

theorem inner_shaped {least : Nat} : (inner identifier keys children).Shaped least ↔
    least ≤ keys.length ∧ keys.length ≤ maxKeys ∧ children.length = keys.length + 1 ∧
      ∀ child ∈ children, child.Shaped (maxKeys / 2) := Iff.rfl

theorem leaf_shaped {least : Nat} {leaf : Leaf} : (Tree.leaf leaf).Shaped least ↔
    least ≤ leaf.entries.length ∧ leaf.entries.length ≤ maxKeys := Iff.rfl

theorem Shaped.mono {tree : Tree height} {least fewer : Nat} (shaped : tree.Shaped least) (le : fewer ≤ least) :
    tree.Shaped fewer := by
  cases height with
  | zero => exact ⟨le.trans shaped.1, shaped.2⟩
  | succ height => exact ⟨le.trans shaped.1, shaped.2⟩

theorem Shaped.fits {tree : Tree height} {least : Nat} (shaped : tree.Shaped least) (parent : PageId) :
    (tree.node parent).Fits := by
  cases height with
  | zero =>
    refine ⟨?_, fun _ => ⟨?_, rfl⟩, fun impossible => nomatch impossible⟩
    · simpa [node] using shaped.2
    · simp [node]
  | succ height =>
    refine ⟨shaped.2.1, (fun impossible => nomatch impossible), fun _ => ⟨?_, rfl⟩⟩
    simpa [node] using shaped.2.2.1

end Basics

end Tree

/-- A node around a missing child. -/
structure Gap (Child : Type) where
  id : PageId
  keysBefore : List Key
  before : List Child
  keysAfter : List Key
  after : List Child

/-- What is around a subtree of the given height, innermost node first. -/
inductive Context : Nat → Type
  | top {height : Nat} : Context height
  | under {height : Nat} (gap : Gap (Tree height)) (above : Context (height + 1)) : Context height

namespace Gap

variable {height : Nat}

def node (gap : Gap (Tree height)) (hole parent : PageId) : BPlusTreeNode where
  isLeaf := false
  pageId := gap.id
  parentId := parent
  keys := gap.keysBefore ++ gap.keysAfter
  children := gap.before.map Tree.id ++ hole :: gap.after.map Tree.id

def fill (gap : Gap (Tree height)) (tree : Tree height) : Tree (height + 1) :=
  .inner gap.id (gap.keysBefore ++ gap.keysAfter) (gap.before ++ tree :: gap.after)

def siblings (gap : Gap (Tree height)) : Multiset BPlusTreeNode :=
  (gap.before.map (Tree.nodes gap.id)).sum + (gap.after.map (Tree.nodes gap.id)).sum

structure Shaped (gap : Gap (Tree height)) (least : Nat) : Prop where
  before : gap.keysBefore.length = gap.before.length
  after : gap.keysAfter.length = gap.after.length
  least : least ≤ gap.keysBefore.length + gap.keysAfter.length
  most : gap.keysBefore.length + gap.keysAfter.length ≤ maxKeys
  left : ∀ child ∈ gap.before, child.Shaped (maxKeys / 2)
  right : ∀ child ∈ gap.after, child.Shaped (maxKeys / 2)

@[simp] theorem fill_id (gap : Gap (Tree height)) (tree : Tree height) : (gap.fill tree).id = gap.id := rfl

theorem fill_node (gap : Gap (Tree height)) (tree : Tree height) (parent : PageId) :
    (gap.fill tree).node parent = gap.node tree.id parent := by
  simp [fill, node, Tree.inner_node]

theorem fill_below (gap : Gap (Tree height)) (tree : Tree height) :
    (gap.fill tree).below = gap.siblings + tree.nodes gap.id := by
  rw [fill, Tree.inner_below, List.map_append, List.sum_append, List.map_cons, List.sum_cons, siblings]
  abel

theorem fill_nodes (gap : Gap (Tree height)) (tree : Tree height) (parent : PageId) :
    (gap.fill tree).nodes parent = {gap.node tree.id parent} + gap.siblings + tree.nodes gap.id := by
  rw [Tree.nodes, fill_node, fill_below, add_assoc]

theorem fill_word {gap : Gap (Tree height)} {least : Nat} (shaped : gap.Shaped least) (tree : Tree height) :
    (gap.fill tree).word = weaveLeft Token.sep Tree.word gap.keysBefore gap.before ++
      (tree.word ++ weaveRight Token.sep Tree.word gap.keysAfter gap.after) :=
  weave_middle shaped.before shaped.after

theorem fill_shaped {gap : Gap (Tree height)} {least : Nat} {tree : Tree height} (shaped : gap.Shaped least)
    (good : tree.Shaped (maxKeys / 2)) : (gap.fill tree).Shaped least := by
  refine Tree.inner_shaped.mpr ⟨?_, ?_, ?_, fun child member => ?_⟩
  · rw [List.length_append]
    exact shaped.least
  · rw [List.length_append]
    exact shaped.most
  · have before := shaped.before
    have after := shaped.after
    simp only [List.length_append, List.length_cons]
    omega
  · rcases List.mem_append.mp member with left | other
    · exact shaped.left child left
    · rcases List.mem_cons.mp other with rfl | right
      · exact good
      · exact shaped.right child right

end Gap

namespace Context

def parentId : {height : Nat} → Context height → PageId
  | _, top => invalidPageId
  | _, under gap _ => gap.id

/-- The page of the root, given that of the subtree. -/
def rootId : {height : Nat} → Context height → PageId → PageId
  | _, top, hole => hole
  | _, under gap above, _ => above.rootId gap.id

def nodes : {height : Nat} → Context height → PageId → Multiset BPlusTreeNode
  | _, top, _ => 0
  | _, under gap above, hole => {gap.node hole above.parentId} + gap.siblings + above.nodes gap.id

def left : {height : Nat} → Context height → List Token
  | _, top => []
  | _, under gap above => above.left ++ weaveLeft Token.sep Tree.word gap.keysBefore gap.before

def right : {height : Nat} → Context height → List Token
  | _, top => []
  | _, under gap above => weaveRight Token.sep Tree.word gap.keysAfter gap.after ++ above.right

def least : {height : Nat} → Context height → Nat
  | height, top => min height 1
  | _, under _ _ => maxKeys / 2

def Shaped : {height : Nat} → Context height → Prop
  | _, top => True
  | _, under gap above => gap.Shaped above.least ∧ above.Shaped

def depth : {height : Nat} → Context height → Nat
  | _, top => 0
  | _, under _ above => above.depth + 1

def plug : {height : Nat} → Context height → Tree height → (total : Nat) × Tree total
  | height, top, tree => ⟨height, tree⟩
  | _, under gap above, tree => above.plug (gap.fill tree)

theorem plug_height {height : Nat} (context : Context height) (tree : Tree height) :
    (context.plug tree).1 = height + context.depth := by
  induction context with
  | top => rfl
  | under gap above ih =>
    rw [plug, ih, depth]
    omega

theorem plug_id {height : Nat} (context : Context height) (tree : Tree height) :
    (context.plug tree).2.id = context.rootId tree.id := by
  induction context with
  | top => rfl
  | under gap above ih => rw [plug, ih, Gap.fill_id, rootId]

theorem plug_nodes {height : Nat} (context : Context height) (tree : Tree height) :
    (context.plug tree).2.nodes invalidPageId = context.nodes tree.id + tree.nodes context.parentId := by
  induction context with
  | top => rw [plug, nodes, parentId, zero_add]
  | under gap above ih =>
    rw [plug, ih, Gap.fill_id, Gap.fill_nodes, nodes, parentId]
    abel

theorem plug_word {height : Nat} {context : Context height} (shaped : context.Shaped) (tree : Tree height) :
    (context.plug tree).2.word = context.left ++ (tree.word ++ context.right) := by
  induction context with
  | top => rw [plug, left, right, List.nil_append, List.append_nil]
  | under gap above ih =>
    rw [plug, ih shaped.2, Gap.fill_word shaped.1, left, right]
    simp only [List.append_assoc]

theorem plug_shaped {height : Nat} {context : Context height} (shaped : context.Shaped) {tree : Tree height}
    (good : tree.Shaped context.least) : (context.plug tree).2.RootShaped := by
  induction context with
  | top => exact good
  | under gap above ih => exact ih shaped.2 (Gap.fill_shaped shaped.1 good)

theorem rootId_mem {height : Nat} (gap : Gap (Tree height)) (above : Context (height + 1)) (hole : PageId) :
    ∃ node ∈ (under gap above).nodes hole, node.pageId = (under gap above).rootId hole := by
  have root : ∀ {low : Nat} (context : Context low) (id : PageId),
      context.rootId id = id ∨ ∃ node ∈ context.nodes id, node.pageId = context.rootId id := by
    intro low context
    induction context with
    | top => exact fun id => .inl rfl
    | under gap above ih =>
      intro id
      rcases ih gap.id with same | ⟨node, member, same⟩
      · exact .inr ⟨_, Multiset.mem_add.mpr (.inl (Multiset.mem_add.mpr (.inl (Multiset.mem_singleton_self _)))),
          same.symm⟩
      · exact .inr ⟨node, Multiset.mem_add.mpr (.inr member), same⟩
  rcases root above gap.id with same | ⟨node, member, same⟩
  · exact ⟨_, Multiset.mem_add.mpr (.inl (Multiset.mem_add.mpr (.inl (Multiset.mem_singleton_self _)))), same.symm⟩
  · exact ⟨node, Multiset.mem_add.mpr (.inr member), same⟩

end Context

end QuorumDB.Storage
