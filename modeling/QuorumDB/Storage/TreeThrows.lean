import QuorumDB.Storage.Crowd
import QuorumDB.Storage.TreeSafe

/-!
Calls of the tree that throw. Nothing is undone, so a node that was written stays written;
a call that throws before it wrote one leaves the tree as it was.
-/

namespace QuorumDB.Storage
open Program PageProg SearchWord BPlusTree Sequence BufferedDisk

variable {Result Middle : Type} {store later : TreeStore} {root : PageId} {nodes : Multiset BPlusTreeNode}
variable {base : Multiset (PageId × Cell)} {contents : List (Key × Value)} {plan rest : List Bool} {rounds : Nat}

section Errors

variable {First Second : Type} {error : StorageError}

def Avoids (error : StorageError) (access : Access Result) : Prop := ∀ storage, (access storage).1 ≠ .error error

theorem Avoids.bind {access : Access First} {next : First → Access Second} (first : Avoids error access)
    (behind : ∀ value, Avoids error (next value)) : Avoids error (access >>= next) := by
  intro storage threw
  rw [Access.bind_eq] at threw
  have early := first storage
  rcases ran : access storage with ⟨other | value, left⟩
  · rw [ran] at threw early
    exact early (congrArg _ (Except.error.inj threw))
  · rw [ran] at threw
    exact behind value left threw

theorem Avoids.throwing {other : StorageError} (different : other ≠ error) :
    Avoids error (Access.throwing other : Access Result) :=
  fun _ threw => different (Except.error.inj threw)

theorem writePage_limit (disk : DiskManager) (pageId : PageId) (block : Block) :
    disk.writePage pageId block ≠ .error .pageIdLimit := by
  unfold DiskManager.writePage
  split <;> exact fun threw => by cases threw

theorem readPage_limit (disk : DiskManager) (pageId : PageId) : disk.readPage pageId ≠ .error .pageIdLimit := by
  unfold DiskManager.readPage
  split
  · exact fun threw => by cases threw
  · split <;> exact fun threw => by cases threw

theorem evict_limit (index : Nat) : Avoids .pageIdLimit (evict index) := by
  intro storage threw
  unfold evict at threw
  split at threw
  · have wrote := writePage_limit storage.disk (storage.pool.frame index).pageId (storage.pool.frame index).block
    split at threw
    next error same => exact wrote (same.trans (congrArg _ (Except.error.inj threw)))
    next disk same => cases threw
  · cases threw

theorem acquireFrame_limit : Avoids .pageIdLimit acquireFrame := by
  intro storage threw
  unfold acquireFrame at threw
  split at threw
  · cases threw
  · split at threw
    · cases threw
    · exact evict_limit _ storage threw

theorem fetchPage_limit (pageId : PageId) : Avoids .pageIdLimit (fetchPage pageId) := by
  intro storage threw
  unfold fetchPage at threw
  split at threw
  · cases threw
  · split at threw
    · cases threw
    · have taken := acquireFrame_limit storage
      split at threw
      next error left same => exact taken (by rw [same]; exact congrArg _ (Except.error.inj threw))
      next index left same =>
        split at threw
        · cases threw
        · have read := readPage_limit left.disk pageId
          split at threw
          next error same => exact read (same.trans (congrArg _ (Except.error.inj threw)))
          next block same => cases threw

theorem Access.writeNode_limit (node : BPlusTreeNode) : Avoids .pageIdLimit (Access.writeNode node) := by
  refine (fetchPage_limit node.pageId).bind fun page => ?_
  cases page with
  | none => exact Avoids.throwing fun same => by cases same
  | some page =>
    refine Avoids.bind (fun storage threw => ?_) fun block => fun storage threw => by cases threw
    change serializeNode node = .error .pageIdLimit at threw
    unfold serializeNode at threw
    split at threw <;> cases threw

end Errors

section Preludes

variable {good : Result → Prop}

/-- The call writes no node: it is not there to write one, or it throws. -/
def Unwritten : PageCall → TreeStore × List Bool → Prop
  | .writeNode node, state => ∀ later, TreeStore.crowded (.writeNode node) state ≠ some (.ok (), later)
  | _, _ => True

instance (request : PageCall) (state : TreeStore × List Bool) : Decidable (Unwritten request state) :=
  match request with
  | .rootPageId => isTrue trivial
  | .setRootPageId _ => isTrue trivial
  | .readNode _ => isTrue trivial
  | .createNode _ => isTrue trivial
  | .deletePage _ => isTrue trivial
  | .writeNode node =>
      match wrote : TreeStore.crowded (.writeNode node) state with
      | some (.ok (), later) => isFalse fun never => never later wrote
      | some (.error _, _) => isTrue fun _ same => by cases wrote.symm.trans same
      | none => isTrue fun _ same => by cases wrote.symm.trans same

/-- The program reads nodes of the tree, makes new ones aside, and ends with a good value unless it comes to
write a node. -/
inductive Prelude (root : PageId) (nodes : Multiset BPlusTreeNode) (good : Result → Prop) : PageProg Result → Prop
  | done {value : Result} (fine : good value) : Prelude root nodes good (.done value)
  | fail (error : StorageError) : Prelude root nodes good (.fail error)
  | root {next : PageId → PageProg Result} (behind : Prelude root nodes good (next root)) :
      Prelude root nodes good (rootPageId >>= next)
  | read {node : BPlusTreeNode} {next : BPlusTreeNode → PageProg Result} (member : node ∈ nodes)
      (behind : Prelude root nodes good (next node)) : Prelude root nodes good (readNode node.pageId >>= next)
  | create {node : BPlusTreeNode} {next : PageId → PageProg Result} (fits : node.Fits)
      (behind : ∀ pageId, Prelude root nodes good (next pageId)) : Prelude root nodes good (createNode node >>= next)
  | write (node : BPlusTreeNode) (next : Unit → PageProg Result) : Prelude root nodes good (writeNode node >>= next)

theorem Reads.prelude {program : PageProg Result} (reads : Reads root nodes good program) : Prelude root nodes good program := by
  induction reads with
  | done fine => exact .done fine
  | root behind ih => exact .root ih
  | read member behind ih => exact .read member ih

namespace Prelude

theorem seq {first : Middle → Prop} {program : PageProg Middle} {next : Middle → PageProg Result}
    (prelude : Prelude root nodes first program) (behind : ∀ value, first value → Prelude root nodes good (next value)) :
    Prelude root nodes good (program >>= next) := by
  induction prelude with
  | done fine => exact behind _ fine
  | fail error => exact .fail error
  | root later ih => exact .root ih
  | read member later ih => exact .read member ih
  | create fits later ih => exact .create fits ih
  | write node later => exact .write node _

theorem checked {element : Option Middle} {next : Middle → PageProg Result}
    (behind : ∀ value, element = some value → Prelude root nodes good (next value)) :
    Prelude root nodes good (PageProg.checked element >>= next) := by
  cases element with
  | none => exact .fail .outOfRange
  | some value => exact behind value rfl

theorem branch {condition : Prop} [Decidable condition] {program other : PageProg Result}
    (holds : condition → Prelude root nodes good program) (fails : ¬ condition → Prelude root nodes good other) :
    Prelude root nodes good (if condition then program else other) := by
  by_cases here : condition
  · rw [if_pos here]
    exact holds here
  · rw [if_neg here]
    exact fails here

theorem refused {request : PageCall} {next : PageCall.Answer request → PageProg Result} {why : StorageError}
    {result : Except StorageError Result} (can : TreeStore.refusal request = some (.error why))
    (holding : Holding store root nodes base) (head : plan.head? = some true)
    (threw : run TreeStore.crowded (Prog.ask request >>= next) (store, plan) = some (result, (later, rest))) :
    later.rootPageId = root ∧ ∃ others, Owned later.storage (nodes.map nodeCell + others) := by
  have same := run_throw (TreeStore.crowded_refused can head) threw
  cases same
  exact ⟨holding.root, base, holding.holds.toOwned⟩

/-- A program that throws before it wrote a node leaves every node of the tree where it was. -/
theorem throws {program : PageProg Result} {post : Result → TreeStore → Prop} {error : StorageError}
    (prelude : Prelude root nodes good program) (holding : Holding store root nodes base)
    (proceeds : Proceeds program post store) (early : Along TreeStore.crowded Unwritten program (store, plan))
    (threw : run TreeStore.crowded program (store, plan) = some (.error error, (later, rest))) :
    later.rootPageId = root ∧ ∃ others, Owned later.storage (nodes.map nodeCell + others) := by
  induction prelude generalizing store plan base with
  | done fine => cases threw
  | fail other =>
    cases threw
    exact ⟨holding.root, base, holding.holds.toOwned⟩
  | @root next behind ih =>
    have handled : TreeStore.crowded .rootPageId (store, plan) = some (.ok root, (store, plan)) := by
      rw [← holding.root]
      rfl
    have reached : TreeStore.handler .rootPageId store = some (.ok root, store) := by
      rw [← holding.root]
      rfl
    exact ih holding ((ensures_call reached).mp proceeds) (early.rest handled) ((run_call handled next).symm.trans threw)
  | @read node next member behind ih =>
    by_cases head : plan.head? = some true
    · exact refused rfl holding head threw
    · obtain ⟨middle, access, still⟩ := holding.readNode_handled member
      have handled : TreeStore.crowded (.readNode node.pageId) (store, plan) = some (.ok node, (middle, plan.tail)) := by
        rw [TreeStore.crowded_granted rfl head, access]
        rfl
      exact ih still ((ensures_call access).mp proceeds) (early.rest handled) ((run_call handled next).symm.trans threw)
  | @create node next fits behind ih =>
    by_cases head : plan.head? = some true
    · exact refused rfl holding head threw
    · have granted := @TreeStore.crowded_granted (.createNode node) store plan _ rfl head
      rcases Access.createNode_eq holding.holds fits with ⟨left, full, -, owned⟩ | ⟨pageId, after, made, kept⟩
      · have handled : TreeStore.crowded (.createNode node) (store, plan) =
            some (.error .pageIdLimit, (⟨left, store.rootPageId⟩, plan.tail)) := by
          rw [granted]
          change (TreeStore.accessing (Access.createNode node) store).map _ = _
          rw [TreeStore.accessing, full]
          rfl
        have same := run_throw handled threw
        cases same
        exact ⟨holding.root, base, owned⟩
      · have access : TreeStore.handler (.createNode node) store = some (.ok pageId, ⟨after, store.rootPageId⟩) := by
          change TreeStore.accessing (Access.createNode node) store = _
          rw [TreeStore.accessing, made]
        have handled : TreeStore.crowded (.createNode node) (store, plan) =
            some (.ok pageId, (⟨after, store.rootPageId⟩, plan.tail)) := by
          rw [granted, access]
          rfl
        rw [add_left_comm] at kept
        have still : Holding ⟨after, store.rootPageId⟩ root nodes _ := ⟨holding.root, kept⟩
        exact ih pageId still ((ensures_call access).mp proceeds) (early.rest handled) ((run_call handled next).symm.trans threw)
  | @write node next =>
    by_cases head : plan.head? = some true
    · exact refused rfl holding head threw
    · have granted := @TreeStore.crowded_granted (.writeNode node) store plan _ rfl head
      rcases wrote : Access.writeNode node store.storage with ⟨other | value, after⟩
      · have access : TreeStore.handler (.writeNode node) store = some (.error other, ⟨after, store.rootPageId⟩) := by
          change TreeStore.accessing (Access.writeNode node) store = _
          rw [TreeStore.accessing, wrote]
        obtain ⟨rfl, -⟩ := (ensures_throw access).mp proceeds
        have never := Access.writeNode_limit node store.storage
        rw [wrote] at never
        exact absurd rfl never
      · have access : TreeStore.handler (.writeNode node) store = some (.ok value, ⟨after, store.rootPageId⟩) := by
          change TreeStore.accessing (Access.writeNode node) store = _
          rw [TreeStore.accessing, wrote]
        rw [access] at granted
        exact absurd granted (early.first _)

end Prelude

end Preludes

section Links

variable {height : Nat}

/-- The children and the parent of every node of a tree are nodes of the tree. -/
structure Linked (root : PageId) (nodes : Multiset BPlusTreeNode) : Prop where
  children : ∀ node ∈ nodes, ∀ child ∈ node.children, ∃ other ∈ nodes, other.pageId = child
  parents : ∀ node ∈ nodes, node.pageId ≠ root → ∃ other ∈ nodes, other.pageId = node.parentId

theorem exists_child {id : PageId} {keys : List Key} {children : List (Tree height)} {node : BPlusTreeNode}
    (member : node ∈ (Tree.inner id keys children).below) : ∃ child ∈ children, node ∈ child.nodes id := by
  rw [Tree.inner_below] at member
  induction children with
  | nil => exact absurd member (Multiset.notMem_zero node)
  | cons child children ih =>
    rw [List.map_cons, List.sum_cons, Multiset.mem_add] at member
    rcases member with here | there
    · exact ⟨child, List.mem_cons_self, here⟩
    · obtain ⟨other, inside, found⟩ := ih there
      exact ⟨other, List.mem_cons_of_mem _ inside, found⟩

theorem Tree.children_inside (tree : Tree height) (parent : PageId) :
    ∀ node ∈ tree.nodes parent, ∀ child ∈ node.children, ∃ other ∈ tree.nodes parent, other.pageId = child := by
  induction height generalizing parent with
  | zero =>
    intro node member child inside
    have same : node = tree.node parent := (Multiset.mem_add.mp member).elim Multiset.mem_singleton.mp
      fun none => absurd none (Multiset.notMem_zero node)
    rw [same] at inside
    exact absurd inside List.not_mem_nil
  | succ height ih =>
    obtain ⟨id, keys, children, rfl⟩ := tree.exists_inner
    intro node member child inside
    rcases Multiset.mem_add.mp member with top | below
    · rw [Multiset.mem_singleton.mp top] at inside
      obtain ⟨subtree, found, rfl⟩ := List.mem_map.mp inside
      exact ⟨subtree.node id, Multiset.mem_add.mpr (.inr (Tree.child_nodes found (subtree.mem_nodes id))), Tree.node_pageId subtree⟩
    · obtain ⟨subtree, found, deeper⟩ := exists_child below
      obtain ⟨other, there, same⟩ := ih subtree id node deeper child inside
      exact ⟨other, Multiset.mem_add.mpr (.inr (Tree.child_nodes found there)), same⟩

theorem Tree.parents_inside (tree : Tree height) (parent : PageId) : ∀ node ∈ tree.nodes parent,
    node = tree.node parent ∨ ∃ other ∈ tree.nodes parent, other.pageId = node.parentId := by
  induction height generalizing parent with
  | zero =>
    intro node member
    exact (Multiset.mem_add.mp member).imp Multiset.mem_singleton.mp fun none => absurd none (Multiset.notMem_zero node)
  | succ height ih =>
    obtain ⟨id, keys, children, rfl⟩ := tree.exists_inner
    intro node member
    rcases Multiset.mem_add.mp member with top | below
    · exact .inl (Multiset.mem_singleton.mp top)
    · obtain ⟨subtree, found, deeper⟩ := exists_child below
      rcases ih subtree id node deeper with rfl | ⟨other, there, same⟩
      · exact .inr ⟨_, Tree.mem_nodes _ parent, (Tree.node_parentId subtree).symm⟩
      · exact .inr ⟨other, Multiset.mem_add.mpr (.inr (Tree.child_nodes found there)), same⟩

theorem Tree.linked (tree : Tree height) : Linked tree.id (tree.nodes invalidPageId) := by
  refine ⟨tree.children_inside invalidPageId, fun node member inner => ?_⟩
  rcases tree.parents_inside invalidPageId node member with rfl | found
  · exact absurd (Tree.node_pageId tree) inner
  · exact found

end Links

section Calls

variable {good : Result → Prop} {parent leaf : BPlusTreeNode}

theorem Linked.neighbour (linked : Linked root nodes) (inside : parent ∈ nodes) {index : Nat} {next : BPlusTreeNode → PageProg Result}
    (behind : ∀ node, Prelude root nodes good (next node)) :
    Prelude root nodes good (checked parent.children[index]? >>= fun id => readNode id >>= next) := by
  refine .checked fun id found => ?_
  obtain ⟨node, member, rfl⟩ := linked.children parent inside id (List.mem_of_getElem? found)
  exact .read member (behind node)

theorem borrowLeafLeft_prelude (linked : Linked root nodes) (inside : parent ∈ nodes) (leaf : BPlusTreeNode) (index : Nat) :
    Prelude root nodes (fun _ => True) (borrowLeafLeft parent leaf index) := by
  refine .branch (fun _ => linked.neighbour inside fun left => ?_) fun _ => .done trivial
  refine .branch (fun _ => .checked fun key _ => .checked fun value _ => ?_) fun _ => .done trivial
  exact .checked fun leftKeys _ => .checked fun leftValues _ => .checked fun parentKeys _ => .write _ _

theorem borrowLeafRight_prelude (linked : Linked root nodes) (inside : parent ∈ nodes) (leaf : BPlusTreeNode) (index : Nat) :
    Prelude root nodes (fun _ => True) (borrowLeafRight parent leaf index) := by
  refine .branch (fun _ => linked.neighbour inside fun right => ?_) fun _ => .done trivial
  refine .branch (fun _ => .checked fun key _ => .checked fun value _ => ?_) fun _ => .done trivial
  refine .checked fun rightKeys _ => .checked fun rightValues _ => .checked fun first _ => ?_
  exact .checked fun parentKeys _ => .write _ _

theorem mergeLeaf_prelude (linked : Linked root nodes) (inside : parent ∈ nodes) (leaf : BPlusTreeNode) (index : Nat) :
    Prelude root nodes (fun _ => False) (mergeLeaf parent leaf index) := by
  refine .branch (fun _ => linked.neighbour inside fun left => ?_) fun _ => linked.neighbour inside fun right => ?_
  · exact .checked fun parentKeys _ => .checked fun parentChildren _ => .write _ _
  · exact .checked fun parentKeys _ => .checked fun parentChildren _ => .write _ _

theorem handleLeafUnderflow_prelude (linked : Linked root nodes) (leaf : BPlusTreeNode)
    (inside : ∃ parent ∈ nodes, parent.pageId = leaf.parentId) : Prelude root nodes (fun _ => True) (handleLeafUnderflow rounds leaf) := by
  obtain ⟨parent, member, same⟩ := inside
  rw [handleLeafUnderflow, ← same]
  refine .read member ((borrowLeafLeft_prelude linked member leaf _).seq fun fromLeft _ => ?_)
  refine .branch (fun _ => .done trivial) fun _ => (borrowLeafRight_prelude linked member leaf _).seq fun fromRight _ => ?_
  exact .branch (fun _ => .done trivial) fun _ => (mergeLeaf_prelude linked member leaf _).seq fun _ never => never.elim

/-- Delete reads the leaf, its parent and its neighbours before it writes any of them. -/
theorem deleteFromLeaf_prelude (linked : Linked root nodes) (member : leaf ∈ nodes) (index : Nat) :
    Prelude root nodes (fun _ => True) (deleteFromLeaf rounds leaf index) := by
  refine .checked fun keys _ => .checked fun values _ => .root (.branch (fun _ => .write _ _) fun inner => ?_)
  have inside := linked.parents leaf member fun same => inner (.inl same)
  refine (handleLeafUnderflow_prelude linked { leaf with keys := keys, values := values } inside).seq fun _ _ => ?_
  exact .done trivial

theorem splitLeaf_prelude {good : Bool → Prop} (few : leaf.keys.length ≤ maxKeys + 1)
    (sizes : leaf.values.length = leaf.keys.length) : Prelude root nodes good (splitLeaf rounds leaf) := by
  refine .create ⟨?_, fun _ => ⟨?_, rfl⟩, fun impossible => nomatch impossible⟩ fun rightId => .write _ _
  · rw [List.length_drop]
    unfold maxKeys at few ⊢
    omega
  · rw [List.length_drop, List.length_drop, sizes]

theorem insertIntoLeaf_prelude {good : Bool → Prop} (fits : leaf.Fits) (isLeaf : leaf.isLeaf = true) (index : Nat)
    (key : Key) (value : Value) : Prelude root nodes good (insertIntoLeaf rounds leaf index key value) := by
  refine .checked fun keys grown => .checked fun values grownValues => .branch (fun _ => .write _ _) fun _ => ?_
  have keyCount := insertAt?_length grown
  have valueCount := insertAt?_length grownValues
  have most := fits.keys
  have sizes := (fits.leaf isLeaf).1
  apply splitLeaf_prelude
  · change keys.length ≤ _
    omega
  · change values.length = keys.length
    omega

end Calls

section Ops

variable {error : StorageError}

theorem Contains.delete_prelude (contains : Contains root contents nodes) (real : ∀ node ∈ nodes, node.pageId ≠ invalidPageId)
    (key : Key) (enough : contents.length + 1 < rounds) :
    Prelude root nodes (fun _ => True) (BPlusTree.delete rounds key) := by
  apply Prelude.root
  cases contains with
  | empty none =>
    rw [if_pos none]
    exact .done trivial
  | @tree height tree good ordered named =>
    subst named
    have low := good.height_le
    have rooted := real _ (tree.mem_nodes invalidPageId)
    rw [Tree.node_pageId] at rooted
    rw [if_neg rooted]
    refine (@findLeaf_reads key _ tree good ordered rounds (by omega) real).prelude.seq ?_
    rintro id ⟨context, leaf, rfl, located⟩
    refine .read located.mem_nodes (.branch (fun _ => ?_) fun _ => .done trivial)
    exact deleteFromLeaf_prelude tree.linked located.mem_nodes _

theorem Contains.insert_prelude (contains : Contains root contents nodes) (real : ∀ node ∈ nodes, node.pageId ≠ invalidPageId)
    (rooted : root ≠ invalidPageId) (key : Key) (value : Value) (enough : contents.length + 1 < rounds) :
    Prelude root nodes (fun _ => True) (BPlusTree.insert rounds key value) := by
  apply Prelude.root
  rw [if_neg rooted]
  cases contains with
  | empty none => exact absurd none rooted
  | @tree height tree good ordered named =>
    subst named
    have low := good.height_le
    refine (@findLeaf_reads key _ tree good ordered rounds (by omega) real).prelude.seq ?_
    rintro id ⟨context, leaf, rfl, located⟩
    refine .read located.mem_nodes (.branch (fun _ => .done trivial) fun _ => ?_)
    exact insertIntoLeaf_prelude (located.good.fits _) rfl _ key value

theorem first_insert_throws (holding : Holding store root 0 base) (none : root = invalidPageId) {key : Key} {value : Value}
    (threw : run TreeStore.crowded (TreeOp.program rounds (.insert key value)) (store, plan) = some (.error error, (later, rest))) :
    later.rootPageId = root ∧ ∃ others, Owned later.storage ((0 : Multiset BPlusTreeNode).map nodeCell + others) := by
  let fresh : BPlusTreeNode := { keys := [key], values := [value] }
  have fits : fresh.Fits := ⟨Nat.succ_pos 3, fun _ => ⟨rfl, rfl⟩, fun impossible => nomatch impossible⟩
  have creates : run TreeStore.crowded (createNode fresh >>= fun rootId => setRootPageId rootId >>= fun _ =>
      pure (TreeAnswer.changed true)) (store, plan) = some (.error error, (later, rest)) := by
    rw [← threw]
    change _ = run TreeStore.crowded ((if store.rootPageId = invalidPageId then _ else _) >>= _) (store, plan)
    rw [if_pos (holding.root.trans none)]
    rfl
  by_cases head : plan.head? = some true
  · exact Prelude.refused rfl holding head creates
  · have granted := @TreeStore.crowded_granted (.createNode fresh) store plan _ rfl head
    have access : TreeStore.handler (.createNode fresh) store = TreeStore.accessing (Access.createNode fresh) store := rfl
    rcases Access.createNode_eq holding.holds fits with ⟨left, full, -, owned⟩ | ⟨pageId, after, made, -⟩
    · rw [access, TreeStore.accessing, full] at granted
      have same := run_throw granted creates
      cases same
      exact ⟨holding.root, base, owned⟩
    · rw [access, TreeStore.accessing, made] at granted
      have ran := (run_call granted _).symm.trans creates
      cases ran

/-- A call that throws before it wrote a node leaves the tree standing, with the same pairs. -/
theorem Represents.throw_early (represents : Represents store base contents) (op : TreeOp) (enough : contents.length + 1 < rounds)
    (threw : run TreeStore.crowded (op.program rounds) (store, plan) = some (.error error, (later, rest)))
    (early : Along TreeStore.crowded Unwritten (op.program rounds) (store, plan)) : ∃ others, Standing later others contents := by
  have proceeds := op.program_spec represents enough
  obtain ⟨nodes, contains, holding, -⟩ := represents.holding
  have real : ∀ node ∈ nodes, node.pageId ≠ invalidPageId := fun node => holding.nonneg
  suffices left : later.rootPageId = store.rootPageId ∧ ∃ others, Owned later.storage (nodes.map nodeCell + others) by
    obtain ⟨same, others, owned⟩ := left
    exact ⟨others, nodes, same ▸ contains, owned⟩
  cases op with
  | search key =>
    have prelude : Prelude store.rootPageId nodes (fun _ => True) (TreeOp.program rounds (.search key)) := by
      refine (contains.search_reads real key enough).prelude.seq fun found _ => ?_
      exact .done trivial
    exact prelude.throws holding proceeds early threw
  | delete key =>
    have prelude : Prelude store.rootPageId nodes (fun _ => True) (TreeOp.program rounds (.delete key)) := by
      refine (contains.delete_prelude real key enough).seq fun deleted _ => ?_
      exact .done trivial
    exact prelude.throws holding proceeds early threw
  | insert key value =>
    by_cases rooted : store.rootPageId = invalidPageId
    · cases contains with
      | empty none => exact first_insert_throws holding rooted threw
      | @tree height tree good ordered named =>
        have some := real _ (tree.mem_nodes invalidPageId)
        rw [Tree.node_pageId, named] at some
        exact absurd rooted some
    · have prelude : Prelude store.rootPageId nodes (fun _ => True) (TreeOp.program rounds (.insert key value)) := by
        refine (contains.insert_prelude real rooted key value enough).seq fun inserted _ => ?_
        exact .done trivial
      exact prelude.throws holding proceeds early threw

end Ops

section Answers

namespace TreeCall

def Reading : TreeCall → Prop
  | .search _ => True
  | .rangeScan _ _ _ => True
  | _ => False

def reply (contents : List (Key × Value)) : TreeCall → TreeReply
  | .search key => .found (assoc contents key)
  | .rangeScan start stop out => .scanned (out ++ contents.filter (inRange start stop))
  | _ => .changed false

end TreeCall

def TreeStore.replies (rounds : Nat) (store : TreeStore) (calls : List TreeCall) : Option (Except StorageError (List TreeReply)) :=
  (run TreeStore.handler (inOrder (TreeCall.program rounds) calls) store).map Prod.fst

theorem Contains.call_reads (contains : Contains root contents nodes) (real : ∀ node ∈ nodes, node.pageId ≠ invalidPageId)
    {call : TreeCall} (reading : call.Reading) (enough : contents.length + 1 < rounds) :
    Reads root nodes (fun reply => reply = call.reply contents) (call.program rounds) := by
  cases call with
  | insert key value => exact reading.elim
  | delete key => exact reading.elim
  | search key =>
    refine (contains.search_reads real key enough).seq ?_
    rintro found rfl
    exact .done rfl
  | rangeScan start stop out =>
    refine (contains.rangeScan_reads real start stop out enough).seq ?_
    rintro result rfl
    exact .done rfl

theorem Contains.calls_read (contains : Contains root contents nodes) (real : ∀ node ∈ nodes, node.pageId ≠ invalidPageId)
    {calls : List TreeCall} (reading : ∀ call ∈ calls, call.Reading) (enough : contents.length + 1 < rounds) :
    Reads root nodes (fun replies => replies = calls.map (TreeCall.reply contents)) (inOrder (TreeCall.program rounds) calls) := by
  induction calls with
  | nil => exact .done rfl
  | cons call calls ih =>
    refine (contains.call_reads real (reading call List.mem_cons_self) enough).seq ?_
    rintro reply rfl
    refine (ih fun other inside => reading other (List.mem_cons_of_mem _ inside)).seq ?_
    rintro replies rfl
    exact .done rfl

theorem Represents.replies_eq (represents : Represents store base contents) {calls : List TreeCall}
    (reading : ∀ call ∈ calls, call.Reading) (enough : contents.length + 1 < rounds) :
    store.replies rounds calls = some (.ok (calls.map (TreeCall.reply contents))) := by
  obtain ⟨nodes, contains, holding, -⟩ := represents.holding
  obtain ⟨replies, later, ran, rfl, -⟩ := (contains.calls_read (fun node => holding.nonneg) reading enough).runs holding
  rw [TreeStore.replies, ran]
  rfl

end Answers

end QuorumDB.Storage
