import QuorumDB.Lib.Cost
import QuorumDB.Storage.NodeCodec
import QuorumDB.Storage.TreeRounds
import QuorumDB.Storage.TreeRun
import QuorumDB.Storage.TreeWalk
import Mathlib.Algebra.Order.BigOperators.Group.List
import Mathlib.Tactic.Ring

/-!
The accesses to pages that a call of the tree makes: a few for each level, and the levels are few
because every node but the root is at least half full.
-/

namespace QuorumDB.Storage
open Program PageProg Sequence Interleave SearchWord BPlusTree

/-- Each access is one call of the buffer pool. The root identifier is a member of the tree. -/
def PageCall.accesses : PageCall → Nat
  | .rootPageId | .setRootPageId _ => 0
  | .readNode _ | .writeNode _ | .createNode _ | .deletePage _ => 1

/-- A node that is read has been read from a page. -/
def PageCall.May : (request : PageCall) → request.Answer → Prop
  | .readNode _, node => node.Fits
  | .rootPageId, _ | .setRootPageId _, _ | .writeNode _, _ | .createNode _, _ | .deletePage _, _ => True

namespace BPlusTree

def accesses {Result : Type} (program : PageProg Result) (store : TreeStore) : Nat :=
  cost PageCall.accesses TreeStore.handler program store

/-- So many accesses are enough, and some of them are left in the end. -/
abbrev Spends {Result : Type} (credit : Nat) (left : Result → Nat) (program : PageProg Result) : Prop :=
  Affords PageCall.accesses PageCall.May credit left program

section Rules

variable {Result Item : Type} {credit : Nat} {left : Result → Nat}

theorem spends_root {next : PageId → PageProg Result} (rest : ∀ root, Spends credit left (next root)) :
    Spends credit left (rootPageId >>= next) :=
  .call (Nat.le_of_eq (Nat.zero_add _)) fun root _ => rest root

theorem spends_setRoot {root : PageId} {next : Unit → PageProg Result} (rest : Spends credit left (next ())) :
    Spends credit left (setRootPageId root >>= next) :=
  .call (Nat.le_of_eq (Nat.zero_add _)) fun _ _ => rest

theorem spends_read {pageId : PageId} {next : BPlusTreeNode → PageProg Result} (pays : 1 ≤ credit)
    (rest : ∀ node, node.Fits → Spends (credit - 1) left (next node)) : Spends credit left (readNode pageId >>= next) :=
  .call (Nat.le_of_eq (Nat.add_sub_cancel' pays)) rest

theorem spends_write {node : BPlusTreeNode} {next : Unit → PageProg Result} (pays : 1 ≤ credit)
    (rest : Spends (credit - 1) left (next ())) : Spends credit left (writeNode node >>= next) :=
  .call (Nat.le_of_eq (Nat.add_sub_cancel' pays)) fun _ _ => rest

theorem spends_create {node : BPlusTreeNode} {next : PageId → PageProg Result} (pays : 1 ≤ credit)
    (rest : ∀ pageId, Spends (credit - 1) left (next pageId)) : Spends credit left (createNode node >>= next) :=
  .call (Nat.le_of_eq (Nat.add_sub_cancel' pays)) fun pageId _ => rest pageId

theorem spends_delete {pageId : PageId} {next : Bool → PageProg Result} (pays : 1 ≤ credit)
    (rest : ∀ deleted, Spends (credit - 1) left (next deleted)) : Spends credit left (deletePage pageId >>= next) :=
  .call (Nat.le_of_eq (Nat.add_sub_cancel' pays)) fun deleted _ => rest deleted

theorem spends_checked {value : Option Item} {next : Item → PageProg Result}
    (rest : ∀ item, value = some item → Spends credit left (next item)) : Spends credit left (checked value >>= next) := by
  cases value with
  | none => exact .fail _
  | some item => exact rest item rfl

theorem spends_answer {value : Option Result} : Spends credit (fun _ => 0) (checked value) := by
  cases value with
  | none => exact .fail _
  | some result => exact .done (Nat.zero_le _)

theorem spends_first {First : Type} {spent : Nat} {first : PageProg First} {next : First → PageProg Result}
    (pays : Spends spent (fun _ => 0) first) (enough : spent ≤ credit) (rest : ∀ value, Spends (credit - spent) left (next value)) :
    Spends credit left (first >>= next) := by
  have more : Spends credit (fun _ => credit - spent) first := by
    have grown := pays.frame (credit - spent)
    rw [Nat.add_sub_cancel' enough] at grown
    exact grown.mono le_rfl fun _ => by omega
  exact more.bind rest

end Rules

section Programs

variable {rounds depth : Nat} {key : Key} {value : Value} {credit : Nat}

theorem findLeafFrom_spends (current : PageId) : Spends rounds (fun _ => 0) (findLeafFrom key rounds current) := by
  induction rounds generalizing current with
  | zero => exact .fail _
  | succ rounds ih =>
    rw [findLeafFrom]
    refine .branch (.done (Nat.zero_le _)) (spends_read (by omega) fun node _ => .branch (.done (Nat.zero_le _)) ?_)
    exact spends_checked fun child _ => ih child

theorem findLeaf_spends : Spends rounds (fun _ => 0) (findLeaf rounds key) :=
  spends_root findLeafFrom_spends

theorem search_spends : Spends (rounds + 1) (fun _ => 0) (search rounds key) := by
  refine spends_root fun root => .branch (.done (Nat.zero_le _)) ?_
  refine spends_first findLeaf_spends (by omega) fun leafId => spends_read (by omega) fun leaf _ => ?_
  exact .branch (spends_checked fun found _ => .done (Nat.zero_le _)) (.done (Nat.zero_le _))

theorem firstKeyFrom_spends (node : BPlusTreeNode) : Spends rounds (fun _ => 0) (firstKeyFrom rounds node) := by
  induction rounds generalizing node with
  | zero => exact .fail _
  | succ rounds ih =>
    rw [firstKeyFrom]
    exact .branch spends_answer (spends_checked fun child _ => spends_read (by omega) fun below _ => ih below)

theorem firstKey_spends (pageId : PageId) : Spends (rounds + 1) (fun _ => 0) (firstKey rounds pageId) :=
  spends_read (by omega) fun node _ => firstKeyFrom_spends node

theorem propagateMinimumChange_spends (current : PageId) :
    Spends (2 * rounds + depth + 2) (fun _ => 0) (propagateMinimumChange depth rounds current) := by
  induction rounds generalizing current with
  | zero => exact .fail _
  | succ rounds ih =>
    rw [propagateMinimumChange]
    refine spends_root fun root => .branch (.done (Nat.zero_le _)) ?_
    refine spends_read (by omega) fun node _ => spends_read (by omega) fun parent _ => .branch ?_ ?_
    · refine spends_first (firstKey_spends current) (by omega) fun first => spends_checked fun keys _ => ?_
      exact spends_write (by omega) (.done (Nat.zero_le _))
    · exact (ih _).mono (by omega) fun _ => le_rfl

theorem setChildrenParent_spends (children : List PageId) (parentId : PageId) :
    Spends (2 * children.length) (fun _ => 0) (setChildrenParent children parentId) := by
  induction children with
  | nil => exact .done (Nat.zero_le _)
  | cons childId children ih =>
    rw [setChildrenParent, List.length_cons]
    refine spends_read (by omega) fun child _ => spends_write (by omega) ?_
    exact ih.mono (by omega) fun _ => le_rfl

theorem BPlusTreeNode.Fits.children {node : BPlusTreeNode} (fits : node.Fits) : node.children.length ≤ maxKeys + 1 := by
  have keys := fits.keys
  cases leaf : node.isLeaf with
  | true =>
    rw [(fits.leaf leaf).2]
    exact Nat.zero_le _
  | false =>
    rw [(fits.inner leaf).1]
    omega

theorem insertIntoParent_spends (left : BPlusTreeNode) (separator : Key) (right : BPlusTreeNode) :
    Spends (10 * rounds) (fun _ => 0) (insertIntoParent rounds left separator right) := by
  induction rounds generalizing left separator right with
  | zero => exact .fail _
  | succ rounds ih =>
    rw [insertIntoParent]
    refine .branch ?_ ?_
    · refine spends_create (by omega) fun rootId => spends_setRoot (spends_write (by omega) (spends_write (by omega) ?_))
      exact .done (Nat.zero_le _)
    · refine spends_read (by omega) fun parent fits => spends_checked fun keys grown => spends_checked fun children grownChildren => ?_
      apply spends_write (by omega)
      by_cases room : keys.length ≤ maxKeys
      · rw [if_pos room]
        exact spends_write (by omega) (.done (Nat.zero_le _))
      · rw [if_neg room]
        -- the new right node has the last three children of a node that was full
        have moved : (children.drop (keys.length / 2 + 1)).length ≤ 3 := by
          have few := BPlusTreeNode.Fits.children fits
          have keyCount := insertAt?_length grown
          have childCount := insertAt?_length grownChildren
          rw [List.length_drop]
          unfold maxKeys at few room
          omega
        refine spends_checked fun promoted _ => spends_create (by omega) fun newRightId => ?_
        have reparents := setChildrenParent_spends (children.drop (keys.length / 2 + 1)) newRightId
        refine spends_first (reparents.mono (Nat.mul_le_mul_left 2 moved) fun _ => le_rfl) (by omega) fun _ => ?_
        exact spends_write (by omega) ((ih _ _ _).mono (by omega) fun _ => le_rfl)

theorem splitLeaf_spends (leaf : BPlusTreeNode) : Spends (10 * rounds + 2) (fun _ => 0) (splitLeaf rounds leaf) := by
  refine spends_create (by omega) fun rightId => spends_write (by omega) (spends_checked fun first _ => ?_)
  exact spends_first (insertIntoParent_spends _ first _) (by omega) fun _ => .done (Nat.zero_le _)

theorem insertIntoLeaf_spends (leaf : BPlusTreeNode) (index : Nat) :
    Spends (10 * rounds + 3) (fun _ => 0) (insertIntoLeaf rounds leaf index key value) := by
  refine spends_checked fun keys _ => spends_checked fun values _ => .branch (spends_write (by omega) ?_) ?_
  · refine .branch ?_ (.done (Nat.zero_le _))
    exact spends_first (propagateMinimumChange_spends _) (by omega) fun _ => .done (Nat.zero_le _)
  · exact (splitLeaf_spends _).mono (by omega) fun _ => le_rfl

theorem insert_spends : Spends (11 * rounds + 4) (fun _ => 0) (insert rounds key value) := by
  refine spends_root fun root => .branch ?_ ?_
  · exact spends_create (by omega) fun rootId => spends_setRoot (.done (Nat.zero_le _))
  · refine spends_first findLeaf_spends (by omega) fun leafId => spends_read (by omega) fun leaf _ => ?_
    exact .branch (.done (Nat.zero_le _)) ((insertIntoLeaf_spends leaf _).mono (by omega) fun _ => le_rfl)

/-- A neighbour that cannot give anything was only read. -/
def declined (credit : Nat) (given : Bool) : Nat := if given then 0 else credit - 1

theorem borrowInnerLeft_spends (parent node : BPlusTreeNode) (childIndex : Nat) (pays : 6 ≤ credit) :
    Spends credit (declined credit) (borrowInnerLeft parent node childIndex) := by
  refine .branch (spends_checked fun leftId _ => spends_read (by omega) fun left _ => .branch ?_ ?_) (.done (Nat.sub_le _ _))
  · refine spends_checked fun separator _ => spends_checked fun child _ => spends_checked fun last _ => ?_
    refine spends_checked fun parentKeys _ => spends_checked fun leftKeys _ => spends_checked fun leftChildren _ => ?_
    refine spends_first (setChildrenParent_spends [child] node.pageId) (by simp only [List.length_singleton]; omega) fun _ => ?_
    rw [List.length_singleton]
    exact spends_write (by omega) (spends_write (by omega) (spends_write (by omega) (.done (Nat.zero_le _))))
  · exact .done le_rfl

theorem borrowInnerRight_spends (parent node : BPlusTreeNode) (childIndex : Nat) (pays : 6 ≤ credit) :
    Spends credit (declined credit) (borrowInnerRight parent node childIndex) := by
  refine .branch (spends_checked fun rightId _ => spends_read (by omega) fun right _ => .branch ?_ ?_) (.done (Nat.sub_le _ _))
  · refine spends_checked fun separator _ => spends_checked fun child _ => spends_checked fun first _ => ?_
    refine spends_checked fun parentKeys _ => spends_checked fun rightKeys _ => spends_checked fun rightChildren _ => ?_
    refine spends_first (setChildrenParent_spends [child] node.pageId) (by simp only [List.length_singleton]; omega) fun _ => ?_
    rw [List.length_singleton]
    exact spends_write (by omega) (spends_write (by omega) (spends_write (by omega) (.done (Nat.zero_le _))))
  · exact .done le_rfl

theorem mergeInner_spends (parent : BPlusTreeNode) {node : BPlusTreeNode} (fits : node.Fits) (childIndex : Nat) :
    Spends 14 (fun _ => 0) (mergeInner parent node childIndex) := by
  have reparents : ∀ {child : BPlusTreeNode}, child.Fits → ∀ parentId, Spends 10 (fun _ => 0) (setChildrenParent child.children parentId) :=
    fun held parentId => (setChildrenParent_spends _ parentId).mono (Nat.mul_le_mul_left 2 (BPlusTreeNode.Fits.children held)) fun _ => le_rfl
  refine .branch ?_ ?_
  · refine spends_checked fun leftId _ => spends_read (by omega) fun left _ => spends_checked fun separator _ => ?_
    refine spends_checked fun parentKeys _ => spends_checked fun parentChildren _ => ?_
    refine spends_first (reparents fits left.pageId) (by omega) fun _ => spends_write (by omega) (spends_write (by omega) ?_)
    exact spends_delete (by omega) fun _ => .done (Nat.zero_le _)
  · refine spends_checked fun rightId _ => spends_read (by omega) fun right held => spends_checked fun separator _ => ?_
    refine spends_checked fun parentKeys _ => spends_checked fun parentChildren _ => ?_
    refine spends_first (reparents held node.pageId) (by omega) fun _ => spends_write (by omega) (spends_write (by omega) ?_)
    exact spends_delete (by omega) fun _ => .done (Nat.zero_le _)

theorem handleInternalUnderflow_spends (pageId : PageId) :
    Spends (18 * rounds) (fun _ => 0) (handleInternalUnderflow rounds pageId) := by
  induction rounds generalizing pageId with
  | zero => exact .fail _
  | succ rounds ih =>
    rw [handleInternalUnderflow]
    refine spends_read (by omega) fun node fits => spends_root fun root => .branch (.branch ?_ (.done (Nat.zero_le _))) ?_
    · refine spends_checked fun only _ => spends_setRoot (spends_root fun newRoot => spends_read (by omega) fun child _ => ?_)
      exact spends_write (by omega) (spends_delete (by omega) fun _ => .done (Nat.zero_le _))
    · refine .branch (.done (Nat.zero_le _)) (spends_read (by omega) fun parent _ => ?_)
      refine (borrowInnerLeft_spends parent node _ (by omega)).bind fun fromLeft => ?_
      cases fromLeft with
      | true => exact .done (Nat.zero_le _)
      | false =>
        change Spends (18 * (rounds + 1) - 1 - 1 - 1) _ _
        refine (borrowInnerRight_spends parent node _ (by omega)).bind fun fromRight => ?_
        cases fromRight with
        | true => exact .done (Nat.zero_le _)
        | false =>
          change Spends (18 * (rounds + 1) - 1 - 1 - 1 - 1) _ _
          refine spends_first (mergeInner_spends parent fits _) (by omega) fun _ => ?_
          exact (ih _).mono (by omega) fun _ => le_rfl

theorem borrowLeafLeft_spends (parent leaf : BPlusTreeNode) (childIndex : Nat) (pays : 4 ≤ credit) :
    Spends credit (declined credit) (borrowLeafLeft parent leaf childIndex) := by
  refine .branch (spends_checked fun leftId _ => spends_read (by omega) fun left _ => .branch ?_ ?_) (.done (Nat.sub_le _ _))
  · refine spends_checked fun key _ => spends_checked fun value _ => spends_checked fun leftKeys _ => ?_
    refine spends_checked fun leftValues _ => spends_checked fun parentKeys _ => spends_write (by omega) ?_
    exact spends_write (by omega) (spends_write (by omega) (.done (Nat.zero_le _)))
  · exact .done le_rfl

theorem borrowLeafRight_spends (parent leaf : BPlusTreeNode) (childIndex : Nat) (pays : 4 ≤ credit) :
    Spends credit (declined credit) (borrowLeafRight parent leaf childIndex) := by
  refine .branch (spends_checked fun rightId _ => spends_read (by omega) fun right _ => .branch ?_ ?_) (.done (Nat.sub_le _ _))
  · refine spends_checked fun key _ => spends_checked fun value _ => spends_checked fun rightKeys _ => ?_
    refine spends_checked fun rightValues _ => spends_checked fun first _ => spends_checked fun parentKeys _ => ?_
    exact spends_write (by omega) (spends_write (by omega) (spends_write (by omega) (.done (Nat.zero_le _))))
  · exact .done le_rfl

theorem mergeLeaf_spends (parent leaf : BPlusTreeNode) (childIndex : Nat) :
    Spends 4 (fun _ => 0) (mergeLeaf parent leaf childIndex) := by
  refine .branch ?_ ?_
  · refine spends_checked fun leftId _ => spends_read (by omega) fun left _ => spends_checked fun parentKeys _ => ?_
    refine spends_checked fun parentChildren _ => spends_write (by omega) (spends_write (by omega) ?_)
    exact spends_delete (by omega) fun _ => .done (Nat.zero_le _)
  · refine spends_checked fun rightId _ => spends_read (by omega) fun right _ => spends_checked fun parentKeys _ => ?_
    refine spends_checked fun parentChildren _ => spends_write (by omega) (spends_write (by omega) ?_)
    exact spends_delete (by omega) fun _ => .done (Nat.zero_le _)

theorem handleLeafUnderflow_spends (leaf : BPlusTreeNode) :
    Spends (18 * rounds + 7) (fun _ => 0) (handleLeafUnderflow rounds leaf) := by
  refine spends_read (by omega) fun parent _ => ?_
  refine (borrowLeafLeft_spends parent leaf _ (by omega)).bind fun fromLeft => ?_
  cases fromLeft with
  | true => exact .done (Nat.zero_le _)
  | false =>
    change Spends (18 * rounds + 7 - 1 - 1) _ _
    refine (borrowLeafRight_spends parent leaf _ (by omega)).bind fun fromRight => ?_
    cases fromRight with
    | true => exact .done (Nat.zero_le _)
    | false =>
      change Spends (18 * rounds + 7 - 1 - 1 - 1) _ _
      refine spends_first (mergeLeaf_spends parent leaf _) (by omega) fun _ => ?_
      exact (handleInternalUnderflow_spends _).mono (by omega) fun _ => le_rfl

theorem deleteFromLeaf_spends (leaf : BPlusTreeNode) (index : Nat) :
    Spends (18 * rounds + 7) (fun _ => 0) (deleteFromLeaf rounds leaf index) := by
  refine spends_checked fun keys _ => spends_checked fun values _ => spends_root fun root => .branch ?_ ?_
  · refine spends_write (by omega) (.branch ?_ (.done (Nat.zero_le _)))
    exact spends_first (propagateMinimumChange_spends _) (by omega) fun _ => .done (Nat.zero_le _)
  · exact spends_first (handleLeafUnderflow_spends _) le_rfl fun _ => .done (Nat.zero_le _)

theorem delete_spends : Spends (19 * rounds + 8) (fun _ => 0) (delete rounds key) := by
  refine spends_root fun root => .branch (.done (Nat.zero_le _)) ?_
  refine spends_first findLeaf_spends (by omega) fun leafId => spends_read (by omega) fun leaf _ => ?_
  exact .branch ((deleteFromLeaf_spends leaf _).mono (by omega) fun _ => le_rfl) (.done (Nat.zero_le _))

end Programs

end BPlusTree

theorem handler_may (request : PageCall) (store : TreeStore) (answer : request.Answer) (later : TreeStore)
    (handled : TreeStore.handler request store = some (.ok answer, later)) : request.May answer := by
  cases request with
  | readNode pageId =>
    change some ((Access.readNode pageId store.storage).1, _) = _ at handled
    have read : (Access.readNode pageId store.storage).1 = .ok answer := congrArg Prod.fst (Option.some.inj handled)
    unfold Access.readNode at read
    rw [Access.bind_eq] at read
    split at read
    · cases read
    next found middle fetched =>
      cases found with
      | none => cases read
      | some page =>
        cases decoded : deserializeNode (middle.pool.frame page).block with
        | error error =>
          simp only [Access.bind_eq, Access.getData, Access.ofExcept, decoded] at read
          cases read
        | ok node =>
          simp only [Access.bind_eq, Access.getData, Access.ofExcept, decoded, Access.pure_eq] at read
          split at read
          · cases read
          · cases read
            exact deserializeNode_fits decoded
  | rootPageId | setRootPageId root | writeNode node | createNode node | deletePage pageId => trivial

section Levels

variable {height : Nat}

theorem Tree.inner_pairs {id : PageId} {keys : List Key} {children : List (Tree height)} {few : Nat}
    (sizes : children.length = keys.length + 1) (each : ∀ child ∈ children, few ≤ (pairs child.word).length) :
    children.length * few ≤ (pairs (Tree.inner id keys children).word).length := by
  rw [Tree.inner_word, pairs_weave sizes, List.length_flatten, List.map_map]
  have sum := List.card_nsmul_le_sum (children.map fun child => (pairs child.word).length) few (by
    intro count member
    obtain ⟨child, inside, rfl⟩ := List.mem_map.mp member
    exact each child inside)
  rw [List.length_map] at sum
  exact sum

theorem Tree.Shaped.pairs_ge {tree : Tree height} (shaped : tree.Shaped (maxKeys / 2)) :
    2 * 3 ^ height ≤ (pairs tree.word).length := by
  induction height with
  | zero =>
    have least := (shaped.leaf_half (List.mem_singleton_self tree) : maxKeys / 2 ≤ (Leaf.entries tree).length)
    have word : pairs tree.word = Leaf.entries tree := (pairs_leaf tree []).trans (List.append_nil _)
    rw [word]
    exact least
  | succ height ih =>
    obtain ⟨id, keys, children, rfl⟩ := tree.exists_inner
    obtain ⟨least, -, sizes, good⟩ := Tree.inner_shaped.mp shaped
    calc 2 * 3 ^ (height + 1) = 3 * (2 * 3 ^ height) := by ring
      _ ≤ children.length * (2 * 3 ^ height) := by
        apply Nat.mul_le_mul_right
        unfold maxKeys at least
        omega
      _ ≤ (pairs (Tree.inner id keys children).word).length := Tree.inner_pairs sizes fun child member => ih (good child member)

theorem Tree.RootShaped.pairs_ge {tree : Tree (height + 1)} (shaped : tree.RootShaped) :
    4 * 3 ^ height ≤ (pairs tree.word).length := by
  obtain ⟨id, keys, children, rfl⟩ := tree.exists_inner
  obtain ⟨least, -, sizes, good⟩ := Tree.inner_shaped.mp shaped
  calc 4 * 3 ^ height = 2 * (2 * 3 ^ height) := by ring
    _ ≤ children.length * (2 * 3 ^ height) := by
      apply Nat.mul_le_mul_right
      omega
    _ ≤ (pairs (Tree.inner id keys children).word).length := Tree.inner_pairs sizes fun child member => (good child member).pairs_ge

end Levels

section Runs

variable {store : TreeStore} {root : PageId} {base : Multiset (PageId × Cell)} {contents : List (Key × Value)}
variable {height rounds : Nat}

/-- The accesses that are enough for a call on a tree with so many levels. -/
def TreeOp.most (levels : Nat) : TreeOp → Nat
  | .insert _ _ => 11 * levels + 4
  | .delete _ => 19 * levels + 8
  | .search _ => levels + 1

theorem TreeOp.program_spends (op : TreeOp) : Spends (op.most rounds) (fun _ => 0) (op.program rounds) := by
  cases op with
  | insert key value => exact insert_spends.bind fun _ => .done le_rfl
  | delete key => exact delete_spends.bind fun _ => .done le_rfl
  | search key => exact search_spends.bind fun _ => .done le_rfl

theorem TreeOp.program_prolongs {more : Nat} (le : rounds ≤ more) (op : TreeOp) :
    Prolongs (op.program rounds) (op.program more) := by
  cases op with
  | insert key value => exact .bind (insert_prolongs le key value) fun _ => .refl _
  | delete key => exact .bind (delete_prolongs le key) fun _ => .refl _
  | search key => exact .bind (search_prolongs le key) fun _ => .refl _

theorem TreeOp.program_finishes {tree : Tree height} (good : tree.RootShaped) (ordered : Ordered tree.word)
    (holding : Holding store tree.id (tree.nodes invalidPageId) base) (op : TreeOp) {error : StorageError} {later : TreeStore}
    (ran : run TreeStore.handler (op.program (height + 1)) store = some (.error error, later)) : ¬ Unfinished error := by
  have proceeds : Proceeds (op.program (height + 1)) (fun _ _ => True) store := by
    cases op with
    | insert key value =>
      have inserts := insert_tree good ordered holding key value (Nat.lt_succ_self height)
      exact (inserts.plain (insert_finding _ key value)).2.seq fun _ _ _ => trivial
    | delete key =>
      have deletes := delete_tree good ordered holding key (Nat.lt_succ_self height)
      exact (deletes.plain (delete_finding _ key)).2.seq fun _ _ _ => trivial
    | search key =>
      have reads := @search_reads key _ _ good ordered _ (Nat.lt_succ_self height) fun node => holding.nonneg
      exact (reads.proceeds holding).seq fun _ _ _ => trivial
  unfold Proceeds Ensures at proceeds
  rw [ran] at proceeds
  intro unfinished
  have limit : StorageError.unfinished = .pageIdLimit := unfinished.symm.trans proceeds.1
  cases limit

theorem TreeOp.accesses_le {tree : Tree height} (good : tree.RootShaped) (ordered : Ordered tree.word)
    (holding : Holding store tree.id (tree.nodes invalidPageId) base) (op : TreeOp) (enough : height < rounds) :
    accesses (op.program rounds) store ≤ op.most (height + 1) := by
  have same := (op.program_prolongs enough).cost_eq PageCall.accesses fun _ _ => op.program_finishes good ordered holding
  unfold accesses
  rw [same]
  exact op.program_spends.cost_le handler_may store

theorem accesses_root {Result : Type} (next : PageId → PageProg Result) :
    accesses (rootPageId >>= next) store = accesses (next store.rootPageId) store :=
  Nat.zero_add _

theorem accesses_read {nodes : Multiset BPlusTreeNode} {node : BPlusTreeNode} (holding : Holding store root nodes base)
    (member : node ∈ nodes) : ∃ later, Holding later root nodes base ∧ ∀ {Result : Type} (next : BPlusTreeNode → PageProg Result),
      accesses (readNode node.pageId >>= next) store = 1 + accesses (next node) later := by
  obtain ⟨later, handled, still⟩ := holding.readNode_handled member
  refine ⟨later, still, fun next => ?_⟩
  change cost PageCall.accesses TreeStore.handler (.call (.readNode node.pageId) next) store = _
  rw [cost, handled]
  rfl

section Scan

variable {start stop : Key}

theorem scanEntries_stops {entries : List (Key × Value)} {pair : Key × Value} (member : pair ∈ entries) (low : start ≤ pair.1)
    (past : stop < pair.1) (out : List (Key × Value)) :
    ∃ result, scanEntries start stop (entries.map Prod.fst) (entries.map Prod.snd) out = pure (result, true) := by
  induction entries generalizing out with
  | nil => cases member
  | cons first entries ih =>
    rw [List.map_cons, List.map_cons, scanEntries]
    by_cases short : first.1 < start
    · rw [if_pos short]
      rcases List.mem_cons.mp member with rfl | behind
      · exact absurd short low.not_gt
      · exact ih behind out
    · rw [if_neg short]
      by_cases beyond : first.1 > stop
      · rw [if_pos beyond]
        exact ⟨out, rfl⟩
      · rw [if_neg beyond, List.head?_cons, checked_some, List.tail_cons]
        rcases List.mem_cons.mp member with rfl | behind
        · exact absurd past beyond
        · exact ih behind _

theorem scanLeaf_accesses {nodes : Multiset BPlusTreeNode} {leaf : Leaf} {above : PageId} (member : (Tree.leaf leaf).node above ∈ nodes)
    (sorted : leaf.entries.Pairwise fun one two => one.1 < two.1) (holding : Holding store root nodes base) (out : List (Key × Value)) :
    accesses (scanLeaves start stop (rounds + 1) leaf.id out) store = 1 ∨
      (∀ pair ∈ leaf.entries, start ≤ pair.1 → pair.1 ≤ stop) ∧ ∃ later more, Holding later root nodes base ∧
        accesses (scanLeaves start stop (rounds + 1) leaf.id out) store = 1 + accesses (scanLeaves start stop rounds leaf.next more) later := by
  have here : leaf.id ≠ invalidPageId := holding.nonneg member
  obtain ⟨later, still, spent⟩ := accesses_read holding member
  obtain ⟨returned, ran, -⟩ := @scanEntries_eq start stop _ sorted out
  change ∀ {Result : Type} (next : BPlusTreeNode → PageProg Result),
    accesses (readNode leaf.id >>= next) store = 1 + accesses (next ((Tree.leaf leaf).node above)) later at spent
  rw [scanLeaves, if_neg here, spent]
  change 1 + accesses (scanEntries start stop (leaf.entries.map Prod.fst) (leaf.entries.map Prod.snd) out >>= _) later = 1 ∨ _ ∧
    ∃ behind more, Holding behind root nodes base ∧
      1 + accesses (scanEntries start stop (leaf.entries.map Prod.fst) (leaf.entries.map Prod.snd) out >>= _) later = _
  rw [ran]
  cases returned with
  | true => exact .inl rfl
  | false =>
    refine .inr ⟨fun pair within low => ?_, later, _, still, rfl⟩
    by_contra high
    obtain ⟨result, stopped⟩ := scanEntries_stops within low (not_le.mp high) out
    have differs := Prog.done.inj (ran.symm.trans stopped)
    cases congrArg Prod.snd differs

/-- Every leaf that is read from its beginning, but the last, gives two pairs at least. -/
theorem scanLeaves_accesses {nodes : Multiset BPlusTreeNode} {chain : List Leaf}
    (stored : ∀ leaf ∈ chain, ∃ above, (Tree.leaf leaf).node above ∈ nodes)
    (chained : Chained invalidPageId (chain.map fun leaf => (leaf.id, leaf.next)))
    (sorted : (chain.flatMap Leaf.entries).Pairwise fun one two => one.1 < two.1)
    (half : ∀ leaf ∈ chain, maxKeys / 2 ≤ leaf.entries.length) (inside : ∀ pair ∈ chain.flatMap Leaf.entries, start ≤ pair.1)
    (holding : Holding store root nodes base) (out : List (Key × Value)) :
    2 * accesses (scanLeaves start stop rounds (chainHead invalidPageId (chain.map fun leaf => (leaf.id, leaf.next))) out) store ≤
      2 + ((chain.flatMap Leaf.entries).filter (inRange start stop)).length := by
  induction chain generalizing rounds out store with
  | nil =>
    cases rounds with
    | zero => exact Nat.zero_le _
    | succ rounds =>
      rw [List.map_nil, chainHead, scanLeaves, if_pos rfl]
      exact Nat.zero_le _
  | cons leaf chain ih =>
    cases rounds with
    | zero => exact Nat.zero_le _
    | succ rounds =>
      obtain ⟨above, member⟩ := stored leaf List.mem_cons_self
      rw [List.flatMap_cons] at sorted inside ⊢
      obtain ⟨own, rest, -⟩ := List.pairwise_append.mp sorted
      rw [List.map_cons, chainHead]
      rcases scanLeaf_accesses member own holding out with once | ⟨high, later, more, still, spent⟩
      · rw [once]
        omega
      · have next : leaf.next = chainHead invalidPageId (chain.map fun leaf => (leaf.id, leaf.next)) := chained.1
        have behind := @ih later rounds (fun other within => stored other (List.mem_cons_of_mem _ within)) chained.2 rest
          (fun other within => half other (List.mem_cons_of_mem _ within))
          (fun pair within => inside pair (List.mem_append_right _ within)) still more
        have all : leaf.entries.filter (inRange start stop) = leaf.entries := by
          rw [List.filter_eq_self]
          intro pair within
          have low := inside pair (List.mem_append_left _ within)
          simp only [inRange, decide_eq_true_eq]
          exact ⟨low, high pair within low⟩
        have two := half leaf List.mem_cons_self
        rw [spent, next, List.filter_append, all, List.length_append]
        unfold maxKeys at two
        omega

theorem Located.right_half {tree : Tree height} (good : tree.RootShaped) {key : Key} {context : Context 0} {leaf other : Leaf}
    (located : Located ⟨height, tree⟩ key context (.leaf leaf)) (member : other ∈ leaves context.right) :
    maxKeys / 2 ≤ other.entries.length := by
  have split : leaves tree.word = leaves context.left ++ leaf :: leaves context.right := by
    have word : tree.word = context.left ++ (.leaf leaf :: context.right) := located.word
    rw [word, leaves_append, leaves_leaf]
  cases height with
  | zero =>
    have few := congrArg List.length split
    have some := List.length_pos_of_mem member
    have one : (leaves tree.word).length = 1 := rfl
    rw [List.length_append, List.length_cons, one] at few
    omega
  | succ height =>
    have inside : other ∈ leaves tree.word := by
      rw [split]
      exact List.mem_append_right _ (List.mem_cons_of_mem _ member)
    obtain ⟨id, keys, children, rfl⟩ := tree.exists_inner
    obtain ⟨child, below, found⟩ := leaf_of_weave inside
    exact ((Tree.inner_shaped.mp good).2.2.2 child below).leaf_half found

theorem findLeaf_accesses {tree : Tree height} (good : tree.RootShaped) (ordered : Ordered tree.word)
    (holding : Holding store tree.id (tree.nodes invalidPageId) base) (key : Key) (enough : height < rounds) :
    accesses (findLeaf rounds key) store ≤ height + 1 := by
  have reads := @findLeaf_reads key _ _ good ordered _ (Nat.lt_succ_self height) fun node => holding.nonneg
  obtain ⟨found, after, finished, -⟩ := reads.runs holding
  have ends : ∀ error later, run TreeStore.handler (findLeaf (height + 1) key) store = some (.error error, later) →
      ¬ Unfinished error := by
    intro error later ran
    rw [finished] at ran
    cases ran
  have same := (findLeaf_prolongs enough key).cost_eq PageCall.accesses ends
  unfold accesses
  rw [same]
  exact findLeaf_spends.cost_le handler_may store

/-- RangeScan goes down to one leaf, and from there on reads a leaf for two pairs that it gives, and two
leaves at most besides. -/
theorem rangeScan_accesses {tree : Tree height} (good : tree.RootShaped) (ordered : Ordered tree.word)
    (holding : Holding store tree.id (tree.nodes invalidPageId) base) (enough : height < rounds) (out : List (Key × Value)) :
    2 * accesses (rangeScan rounds start stop out) store ≤
      2 * (height + 1) + 4 + ((pairs tree.word).filter (inRange start stop)).length := by
  unfold rangeScan
  rw [accesses_root]
  by_cases none : store.rootPageId = invalidPageId ∨ start > stop
  · rw [if_pos none]
    exact Nat.zero_le _
  · rw [if_neg none]
    have reads := @findLeaf_reads start _ _ good ordered _ enough fun node => holding.nonneg
    obtain ⟨pageId, middle, ran, ⟨context, leaf, rfl, located⟩, still⟩ := reads.runs holding
    have down := findLeaf_accesses good ordered holding start enough
    have word : tree.word = context.left ++ (.leaf leaf :: context.right) := located.word
    have split : leaves tree.word = leaves context.left ++ leaf :: leaves context.right := by
      rw [word, leaves_append, leaves_leaf]
    have chained := ordered.chained
    rw [links_eq, split, List.map_append, chained_append] at chained
    have sorted := ordered.pairs
    rw [word, pairs_append, pairs_leaf] at sorted
    obtain ⟨own, right, -⟩ := List.pairwise_append.mp (List.pairwise_append.mp sorted).2.1
    have fewer : ((pairs context.right).filter (inRange start stop)).length ≤ ((pairs tree.word).filter (inRange start stop)).length := by
      rw [word, pairs_append, pairs_leaf]
      simp only [List.filter_append, List.length_append]
      omega
    have scan : 2 * accesses (scanLeaves start stop rounds leaf.id out) middle ≤
        4 + ((pairs context.right).filter (inRange start stop)).length := by
      obtain ⟨rounds, rfl⟩ := Nat.exists_eq_add_one.mpr (Nat.zero_lt_of_lt enough)
      rcases scanLeaf_accesses located.mem_nodes own still out with once | ⟨-, later, more, again, spent⟩
      · rw [once]
        omega
      · have next : leaf.next = chainHead invalidPageId ((leaves context.right).map fun leaf => (leaf.id, leaf.next)) := chained.2.1
        have behind := @scanLeaves_accesses later tree.id base rounds start stop _ (leaves context.right)
          (fun other member => tree.leaf_nodes _ (split ▸ List.mem_append_right _ (List.mem_cons_of_mem _ member)))
          chained.2.2 (pairs_eq context.right ▸ right) (fun other => located.right_half good)
          (fun pair member => (located.right_pairs pair (pairs_eq context.right ▸ member)).le) again more
        rw [spent, next]
        rw [← pairs_eq] at behind
        omega
    unfold accesses at down scan ⊢
    rw [cost_bind ran]
    omega

end Scan

theorem TreeOp.accesses_empty (none : store.rootPageId = invalidPageId) (op : TreeOp) :
    accesses (op.program rounds) store ≤ op.most 0 := by
  cases op with
  | insert key value =>
    let root : BPlusTreeNode := { keys := [key], values := [value] }
    change accesses (rootPageId >>= fun current => (if current = invalidPageId then _ else _) >>= _) store ≤ _
    rw [accesses_root, if_pos none]
    have creates : Spends 1 (fun _ => 0) (createNode root >>= fun rootId => setRootPageId rootId >>= fun _ => pure (TreeAnswer.changed true)) :=
      spends_create le_rfl fun rootId => spends_setRoot (.done le_rfl)
    exact (creates.cost_le handler_may store).trans (by change 1 ≤ 11 * 0 + 4; decide)
  | delete key =>
    change accesses (rootPageId >>= fun current => (if current = invalidPageId then _ else _) >>= _) store ≤ _
    rw [accesses_root, if_pos none]
    exact Nat.zero_le _
  | search key =>
    change accesses (rootPageId >>= fun current => (if current = invalidPageId then _ else _) >>= _) store ≤ _
    rw [accesses_root, if_pos none]
    exact Nat.zero_le _

def TreeStore.Levels (store : TreeStore) (levels : Nat) : Prop :=
  store.rootPageId = invalidPageId ∧ levels = 0 ∨ ∃ height pages keys, levels = height + 1 ∧
    TreeAt (storedNode store.storage) height (min height 1) invalidPageId store.rootPageId pages keys

/-- The levels of a tree with these pairs are few, and they bound the accesses of every call. A scan
makes one more for every two pairs that it gives. -/
def AccessBound (contents : List (Key × Value)) (store : TreeStore) : Prop :=
  ∃ levels, store.Levels levels ∧ (2 ≤ levels → 4 * 3 ^ (levels - 2) ≤ contents.length) ∧ ∀ rounds, contents.length + 1 < rounds →
    (∀ op : TreeOp, accesses (op.program rounds) store ≤ op.most levels) ∧
    ∀ start stop out, 2 * accesses (rangeScan rounds start stop out) store ≤
      2 * levels + 4 + (contents.filter (inRange start stop)).length

theorem Represents.accessBound (represents : Represents store base contents) : AccessBound contents store := by
  cases represents with
  | empty none owns =>
    refine ⟨0, .inl ⟨none, rfl⟩, fun two => by omega, fun rounds _ => ⟨TreeOp.accesses_empty none, fun start stop out => ?_⟩⟩
    unfold BPlusTree.rangeScan
    rw [accesses_root, if_pos (.inl none)]
    exact Nat.zero_le _
  | tree rooted ordered =>
    obtain ⟨height, tree, good, rfl, holding⟩ := rooted
    have low := good.height_le
    refine ⟨height + 1, .inr ⟨height, tree.pages, tree.allKeys, rfl, ?_⟩, fun two => ?_, fun rounds enough =>
      ⟨fun op => ?_, fun start stop out => ?_⟩⟩
    · rw [holding.root]
      exact good.treeAt ordered.sorted fun node member => holding.stored member
    · cases height with
      | zero => omega
      | succ height => exact good.pairs_ge
    · exact op.accesses_le good ordered holding (by omega)
    · exact rangeScan_accesses good ordered holding (by omega) out

/-- After every sequence of calls the accesses of the next one grow with the logarithm of the number of
pairs, and those of a scan with the pairs that it gives besides. -/
theorem accesses_logarithmic (fresh : store.rootPageId = invalidPageId) (owns : Owns store.storage base) (ops : List TreeOp)
    (enough : ops.length + 1 < rounds) :
    Proceeds (TreeOp.programs rounds ops) (fun _ later => ∃ contents : List (Key × Value),
      (contents.Pairwise fun one two => one.1 < two.1) ∧ assoc contents = (TreeOp.onMaps (fun _ => none) ops).2 ∧
        AccessBound contents later) store := by
  have empty : Represents store base [] := .empty fresh owns
  refine (TreeOp.programs_spec empty ops (by rw [List.length_nil]; omega)).mono ?_
  rintro answers later ⟨contents, represents, -, same, -⟩
  exact ⟨contents, represents.sorted, same, represents.accessBound⟩

theorem accesses_logarithmic_opened :
    Proceeds (TreeOp.programs 4 [.insert 5 1, .insert 3 2]) (fun _ later => ∃ contents : List (Key × Value),
      (contents.Pairwise fun one two => one.1 < two.1) ∧
        assoc contents = (TreeOp.onMaps (fun _ => none) [.insert 5 1, .insert 3 2]).2 ∧ AccessBound contents later)
      (TreeStore.open 1 []) :=
  accesses_logarithmic rfl (opened_owns (by decide) (by decide)) _ (by decide)

end Runs

end QuorumDB.Storage
