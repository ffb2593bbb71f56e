import QuorumDB.Storage.TreeDelete

/-!
The tree between its calls. Others take frames and give them back, and may have all of them;
its nodes stay where they are, and what it holds can be read off the bytes of its pages.
-/

namespace QuorumDB.Storage
open Program PageProg SearchWord BPlusTree

variable {Result : Type} {store later : TreeStore} {root : PageId} {nodes : Multiset BPlusTreeNode} {key : Key} {rounds : Nat}
variable {base : Multiset (PageId × Cell)} {contents : List (Key × Value)} {good : Result → Prop}

/-- The nodes of a tree with this root and these pairs. -/
inductive Contains (root : PageId) : List (Key × Value) → Multiset BPlusTreeNode → Prop
  | empty (none : root = invalidPageId) : Contains root [] 0
  | tree {height : Nat} {tree : Tree height} (good : tree.RootShaped) (ordered : Ordered tree.word) (named : tree.id = root) :
      Contains root (pairs tree.word) (tree.nodes invalidPageId)

/-- The pages hold a tree with these pairs; nothing is said about frames. -/
def Standing (store : TreeStore) (base : Multiset (PageId × Cell)) (contents : List (Key × Value)) : Prop :=
  ∃ nodes, Contains store.rootPageId contents nodes ∧ Owned store.storage (nodes.map nodeCell + base)

theorem Represents.standing (represents : Represents store base contents) : Standing store base contents := by
  cases represents with
  | empty root owns =>
    refine ⟨0, .empty root, ?_⟩
    rw [Multiset.map_zero, zero_add]
    exact owns.toOwned
  | tree rooted ordered =>
    obtain ⟨height, tree, good, rfl, holding⟩ := rooted
    exact ⟨_, .tree good ordered holding.root.symm, holding.holds.toOwned⟩

theorem Represents.available (represents : Represents store base contents) : store.storage.pool.Available := by
  cases represents with
  | empty root owns => exact owns.available
  | tree rooted ordered =>
    obtain ⟨height, tree, good, rfl, holding⟩ := rooted
    exact holding.holds.available

namespace Standing

theorem represents (standing : Standing store base contents) (available : store.storage.pool.Available) :
    Represents store base contents := by
  obtain ⟨nodes, contains, owned⟩ := standing
  cases contains with
  | empty none =>
    rw [Multiset.map_zero, zero_add] at owned
    exact .empty none ⟨owned, available⟩
  | @tree height tree good ordered named =>
    exact .tree ⟨height, tree, good, rfl, named.symm, owned, available⟩ ordered

theorem frame (standing : Standing store base contents) :
    ∃ cells, Owned store.storage (cells + base) ∧ ∀ storage others, Owned storage (cells + others) →
      Standing ⟨storage, store.rootPageId⟩ others contents := by
  obtain ⟨nodes, contains, owned⟩ := standing
  exact ⟨_, owned, fun storage others moved => ⟨nodes, contains, moved⟩⟩

theorem sorted (standing : Standing store base contents) : contents.Pairwise fun one two => one.1 < two.1 := by
  obtain ⟨nodes, contains, -⟩ := standing
  cases contains with
  | empty none => exact List.Pairwise.nil
  | tree good ordered named => exact ordered.pairs

end Standing

theorem Represents.sorted (represents : Represents store base contents) :
    contents.Pairwise fun one two => one.1 < two.1 :=
  represents.standing.sorted

theorem Represents.frame (represents : Represents store base contents) :
    ∃ cells, Owns store.storage (cells + base) ∧ ∀ storage others, Owns storage (cells + others) →
      Represents ⟨storage, store.rootPageId⟩ others contents := by
  obtain ⟨cells, owned, moved⟩ := represents.standing.frame
  refine ⟨cells, ⟨owned, represents.available⟩, fun storage others owns => ?_⟩
  exact (moved storage others owns.toOwned).represents owns.available

section Reading

namespace TreeStore

/-- The calls that read, answered from the bytes of the pages without any frame. -/
def viewing : Handler PageCall PageCall.Answer StorageError TreeStore
  | .rootPageId => fun store => some (.ok store.rootPageId, store)
  | .readNode pageId => fun store => some (deserializeNode (store.storage.content pageId), store)
  | _ => fun _ => none

end TreeStore

theorem Reads.views {program : PageProg Result} (reads : Reads root nodes good program) (named : store.rootPageId = root)
    (shown : ∀ node ∈ nodes, deserializeNode (store.storage.content node.pageId) = .ok node) :
    ∃ value, run TreeStore.viewing program store = some (.ok value, store) ∧ good value := by
  induction reads with
  | @done value fine => exact ⟨value, rfl, fine⟩
  | @root next behind ih =>
    rw [← named] at ih
    exact ih
  | @read node next member behind ih =>
    have handled : TreeStore.viewing (.readNode node.pageId) store = some (.ok node, store) := by
      show some (deserializeNode (store.storage.content node.pageId), store) = _
      rw [shown node member]
    obtain ⟨value, ran, fine⟩ := ih
    exact ⟨value, (run_call handled next).trans ran, fine⟩

theorem Contains.search_reads (contains : Contains root contents nodes) (real : ∀ node ∈ nodes, node.pageId ≠ invalidPageId)
    (key : Key) (enough : contents.length + 1 < rounds) :
    Reads root nodes (fun found => found = assoc contents key) (search rounds key) := by
  cases contains with
  | empty none =>
    apply Reads.root
    rw [if_pos none]
    exact .done rfl
  | @tree height tree good ordered named =>
    have low := good.height_le
    rw [← named]
    exact Storage.search_reads good ordered (by omega) real

theorem Contains.rangeScan_reads (contains : Contains root contents nodes)
    (real : ∀ node ∈ nodes, node.pageId ≠ invalidPageId) (start stop : Key) (out : List (Key × Value))
    (enough : contents.length + 1 < rounds) :
    Reads root nodes (fun result => result = out ++ contents.filter (inRange start stop)) (rangeScan rounds start stop out) := by
  cases contains with
  | empty none =>
    apply Reads.root
    rw [if_pos (.inl none), List.filter_nil, List.append_nil]
    exact .done rfl
  | @tree height tree good ordered named =>
    have low := good.height_le
    have few := good.leaves_le
    rw [← named]
    exact Storage.rangeScan_reads good ordered (by omega) (by omega) start stop out real

theorem Owned.node_shown (owned : Owned store.storage (nodes.map nodeCell + base)) {node : BPlusTreeNode}
    (member : node ∈ nodes) : node.pageId ≠ invalidPageId ∧
      deserializeNode (store.storage.content node.pageId) = .ok node ∧ Live store.storage node.pageId (.node node) := by
  have inside : nodeCell node ∈ nodes.map nodeCell + base :=
    Multiset.mem_add.mpr (.inl (Multiset.mem_map_of_mem nodeCell member))
  have live := owned.live _ inside
  refine ⟨fun same => ?_, owned.shown _ inside, live⟩
  have low : (0 : Int32) ≤ node.pageId := live.nonneg
  rw [same] at low
  exact absurd low (by decide)

/-- With all frames taken no node can be read. -/
theorem Owned.readNode_full (owned : Owned store.storage (nodes.map nodeCell + base))
    (taken : ¬ store.storage.pool.Available) {node : BPlusTreeNode} (member : node ∈ nodes) :
    TreeStore.handler (.readNode node.pageId) store = some (.error .noEvictableFrame, store) := by
  have refused := (owned.node_shown member).2.2.fetchPage_full owned.sound.valid rfl taken
  change TreeStore.accessing (Access.readNode node.pageId) store = _
  simp only [TreeStore.accessing, Access.readNode, Access.bind_eq, refused, Access.throwing]

theorem Reads.full {program : PageProg Result} (reads : Reads root nodes good program)
    (owned : Owned store.storage (nodes.map nodeCell + base)) (named : store.rootPageId = root)
    (taken : ¬ store.storage.pool.Available) {value : Result}
    (ran : run TreeStore.handler program store = some (.ok value, later)) : later = store ∧ good value := by
  induction reads with
  | @done value fine =>
    obtain ⟨same, rfl⟩ := Prod.mk.inj (Option.some.inj ran)
    exact ⟨rfl, Except.ok.inj same ▸ fine⟩
  | @root next behind ih =>
    rw [← named] at ih
    exact ih ran
  | @read node next member behind ih =>
    have handled := owned.readNode_full taken member
    change run TreeStore.handler (.call (.readNode node.pageId) next) store = _ at ran
    rw [run, handled] at ran
    cases ran

theorem Standing.views (standing : Standing store base contents) (key : Key) (enough : contents.length + 1 < rounds) :
    run TreeStore.viewing (search rounds key) store = some (.ok (assoc contents key), store) := by
  obtain ⟨nodes, contains, owned⟩ := standing
  have reads := contains.search_reads (fun node member => (owned.node_shown member).1) key enough
  obtain ⟨value, ran, rfl⟩ := reads.views rfl fun node member => (owned.node_shown member).2.1
  exact ran

theorem Represents.holding (represents : Represents store base contents) :
    ∃ nodes, Contains store.rootPageId contents nodes ∧ Holding store store.rootPageId nodes base ∧
      ∀ later, Holding later store.rootPageId nodes base → Represents later base contents := by
  obtain ⟨nodes, contains, owned⟩ := represents.standing
  refine ⟨nodes, contains, ⟨rfl, owned, represents.available⟩, fun later still => ?_⟩
  have standing : Standing later base contents := ⟨nodes, still.root ▸ contains, still.holds.toOwned⟩
  exact standing.represents still.holds.available

theorem Represents.search_reads (represents : Represents store base contents) (key : Key)
    (enough : contents.length + 1 < rounds) :
    ∃ root nodes, Holding store root nodes base ∧
      (∀ later, Holding later root nodes base → Represents later base contents) ∧
        Reads root nodes (fun found => found = assoc contents key) (search rounds key) := by
  obtain ⟨nodes, contains, holding, represented⟩ := represents.holding
  exact ⟨_, nodes, holding, represented, contains.search_reads (fun node => holding.nonneg) key enough⟩

theorem Represents.rangeScan_reads (represents : Represents store base contents) (start stop : Key)
    (out : List (Key × Value)) (enough : contents.length + 1 < rounds) :
    ∃ root nodes, Holding store root nodes base ∧
      (∀ later, Holding later root nodes base → Represents later base contents) ∧
        Reads root nodes (fun result => result = out ++ contents.filter (inRange start stop)) (rangeScan rounds start stop out) := by
  obtain ⟨nodes, contains, holding, represented⟩ := represents.holding
  exact ⟨_, nodes, holding, represented, contains.rangeScan_reads (fun node => holding.nonneg) start stop out enough⟩

end Reading

end QuorumDB.Storage
