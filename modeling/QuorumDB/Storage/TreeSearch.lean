import QuorumDB.Storage.TreeRules
import QuorumDB.Storage.TreeWord

/-!
The reading operations of the tree: FindLeaf reaches the leaf in which the key belongs,
Search answers with the pair of the word, RangeScan follows the chain of leaves and
collects the pairs of the word in the range.
-/

namespace QuorumDB.Storage
open PageProg SearchWord Interleave Sequence BPlusTree

variable {store : TreeStore} {root : PageId} {base : Multiset (PageId × Cell)} {key : Key}
variable {whole : (total : Nat) × Tree total}

theorem Tree.mem_nodes {height : Nat} (tree : Tree height) (parent : PageId) : tree.node parent ∈ tree.nodes parent :=
  Multiset.mem_add.mpr (.inl (Multiset.mem_singleton_self _))

theorem Located.mem_nodes {height : Nat} {context : Context height} {tree : Tree height}
    (located : Located whole key context tree) : tree.node context.parentId ∈ whole.2.nodes invalidPageId := by
  rw [located.nodes]
  exact Multiset.mem_add.mpr (.inr (tree.mem_nodes _))

theorem Located.left_pairs {height : Nat} {context : Context height} {tree : Tree height}
    (located : Located whole key context tree) : ∀ pair ∈ pairs context.left, pair.1 < key :=
  fun _ member => located.left _ (mem_entries.mp member)

theorem Located.right_pairs {height : Nat} {context : Context height} {tree : Tree height}
    (located : Located whole key context tree) : ∀ pair ∈ pairs context.right, key < pair.1 :=
  fun _ member => located.right _ (mem_entries.mp member)

theorem findLeafFrom_reads (ordered : Ordered whole.2.word) {height : Nat} {context : Context height}
    {tree : Tree height} (located : Located whole key context tree) {rounds : Nat} (enough : height < rounds)
    (real : ∀ node ∈ whole.2.nodes invalidPageId, node.pageId ≠ invalidPageId) :
    Reads root (whole.2.nodes invalidPageId) (fun pageId => ∃ context leaf, pageId = Leaf.id leaf ∧
      Located whole key context (.leaf leaf)) (findLeafFrom key rounds tree.id) := by
  have here : tree.id ≠ invalidPageId := Tree.node_pageId tree ▸ real _ located.mem_nodes
  induction height generalizing rounds with
  | zero =>
    obtain ⟨rounds, rfl⟩ := Nat.exists_eq_add_of_lt enough
    rw [findLeafFrom, if_neg here, ← Tree.node_pageId tree]
    exact .read located.mem_nodes (.done ⟨context, tree, rfl, located⟩)
  | succ height ih =>
    obtain ⟨rounds, rfl⟩ := Nat.exists_eq_add_of_lt enough
    obtain ⟨gap, child, filled, below, chosen⟩ := located.descend ordered
    rw [findLeafFrom, if_neg here, ← Tree.node_pageId tree]
    refine .read located.mem_nodes ?_
    rw [if_neg (by exact Bool.false_ne_true), chosen, checked_some]
    exact ih below (by omega) (Tree.node_pageId child ▸ real _ below.mem_nodes)

theorem findLeaf_reads {height : Nat} {tree : Tree height} (good : tree.RootShaped) (ordered : Ordered tree.word)
    {rounds : Nat} (enough : height < rounds)
    (real : ∀ node ∈ tree.nodes invalidPageId, node.pageId ≠ invalidPageId) :
    Reads tree.id (tree.nodes invalidPageId) (fun pageId => ∃ context leaf, pageId = Leaf.id leaf ∧
      Located ⟨height, tree⟩ key context (.leaf leaf)) (findLeaf rounds key) :=
  .root (@findLeafFrom_reads _ _ ⟨height, tree⟩ ordered _ _ _ (located_root good key) _ enough real)

theorem findLeaf_spec {height : Nat} {tree : Tree height} (good : tree.RootShaped) (ordered : Ordered tree.word)
    {rounds : Nat} (enough : height < rounds)
    (holding : Holding store tree.id (tree.nodes invalidPageId) base) :
    Proceeds (findLeaf rounds key) (fun pageId later => ∃ context leaf, pageId = Leaf.id leaf ∧
      Located ⟨height, tree⟩ key context (.leaf leaf) ∧
        Holding later tree.id (tree.nodes invalidPageId) base) store := by
  have reads := @findLeaf_reads key _ _ good ordered _ enough fun node => holding.nonneg
  refine (reads.proceeds holding).mono fun pageId later done => ?_
  obtain ⟨⟨context, leaf, same, located⟩, still⟩ := done
  exact ⟨context, leaf, same, located, still⟩

theorem Located.assoc_eq {context : Context 0} {leaf : Leaf} (located : Located whole key context (.leaf leaf)) :
    assoc (pairs whole.2.word) key = assoc leaf.entries key := by
  have left : ∀ pair ∈ pairs context.left, pair.1 ≠ key := fun pair member => (located.left_pairs pair member).ne
  have right : assoc (pairs context.right) key = none :=
    assoc_none.mpr fun pair member => (located.right_pairs pair member).ne'
  have word : (Tree.leaf leaf).word = [.leaf leaf] := rfl
  rw [located.word, word, pairs_append, assoc_append_of_ne left, List.singleton_append, pairs_leaf]
  unfold assoc at right ⊢
  rw [List.find?_append, Option.map_eq_none_iff.mp right, Option.or_none]

theorem Located.leaf_sorted {context : Context 0} {leaf : Leaf} (located : Located whole key context (.leaf leaf))
    (ordered : Ordered whole.2.word) : leaf.entries.Pairwise fun one two => one.1 < two.1 := by
  have sorted := (located.sorted ordered).entries
  have word : (Tree.leaf leaf).word = [.leaf leaf] := rfl
  rw [word, marks_leaf, marks_nil, List.append_nil, entries_leaf] at sorted
  exact sorted

theorem lookup_leaf {entries : List (Key × Value)} (sorted : entries.Pairwise fun one two => one.1 < two.1) (key : Key) :
    (∃ before value after, entries = before ++ (key, value) :: after ∧
      before.length = lowerBound (entries.map Prod.fst) key ∧
      (entries.map Prod.fst)[lowerBound (entries.map Prod.fst) key]? = some key ∧
      (∀ pair ∈ before, pair.1 < key) ∧ ∀ pair ∈ after, key < pair.1) ∨
    (∃ before after, entries = before ++ after ∧ before.length = lowerBound (entries.map Prod.fst) key ∧
      (entries.map Prod.fst)[lowerBound (entries.map Prod.fst) key]? ≠ some key ∧
      (∀ pair ∈ before, pair.1 < key) ∧ ∀ pair ∈ after, key < pair.1) := by
  obtain ⟨before, after, split, index, small, found | large⟩ := lowerBound_split sorted key
  · obtain ⟨value, rest, rfl, large⟩ := found
    refine .inl ⟨before, value, rest, split, index, ?_, small, large⟩
    rw [← index, split, List.map_append, List.map_cons]
    exact getElem?_middle (List.length_map _)
  · refine .inr ⟨before, after, split, index, ?_, small, large⟩
    rw [← index, split, List.map_append, List.getElem?_append_right (by rw [List.length_map]), List.length_map,
      Nat.sub_self]
    cases after with
    | nil => simp
    | cons first after => simpa using (large first List.mem_cons_self).ne'

theorem search_reads {height : Nat} {tree : Tree height} (good : tree.RootShaped) (ordered : Ordered tree.word)
    {rounds : Nat} (enough : height < rounds)
    (real : ∀ node ∈ tree.nodes invalidPageId, node.pageId ≠ invalidPageId) :
    Reads tree.id (tree.nodes invalidPageId) (fun found => found = assoc (pairs tree.word) key) (search rounds key) := by
  have here : tree.id ≠ invalidPageId := Tree.node_pageId tree ▸ real _ (tree.mem_nodes _)
  refine .root ?_
  rw [if_neg here]
  refine (findLeaf_reads good ordered enough real).seq ?_
  rintro pageId ⟨context, leaf, rfl, located⟩
  refine .read located.mem_nodes ?_
  change Reads _ _ _ (if (leaf.entries.map Prod.fst)[lowerBound (leaf.entries.map Prod.fst) key]? = some key then
    (checked (leaf.entries.map Prod.snd)[lowerBound (leaf.entries.map Prod.fst) key]? >>= fun value => pure (some value))
    else pure none)
  rw [located.assoc_eq]
  rcases lookup_leaf (located.leaf_sorted ordered) key with
    ⟨before, value, after, split, index, found, small, -⟩ | ⟨before, after, split, -, missing, small, large⟩
  · rw [if_pos found, ← index, split, List.map_append, List.map_cons, getElem?_middle (List.length_map _), checked_some,
      assoc_append_of_ne fun pair member => (small pair member).ne]
    exact .done (by simp [assoc])
  · rw [if_neg missing]
    refine .done (assoc_none.mpr fun pair member => ?_).symm
    rw [split] at member
    exact (List.mem_append.mp member).elim (fun first => (small pair first).ne) fun last => (large pair last).ne'

def leaves (word : List Token) : List Leaf :=
  word.filterMap fun
    | .leaf block => some block
    | .sep _ => none

@[simp] theorem leaves_append (before after : List Token) : leaves (before ++ after) = leaves before ++ leaves after :=
  List.filterMap_append

@[simp] theorem leaves_leaf (leaf : Leaf) (word : List Token) : leaves (.leaf leaf :: word) = leaf :: leaves word := rfl

@[simp] theorem leaves_sep (key : Key) (word : List Token) : leaves (.sep key :: word) = leaves word := rfl

theorem links_eq (word : List Token) : links word = (leaves word).map fun leaf => (leaf.id, leaf.next) := by
  induction word with
  | nil => rfl
  | cons token word ih =>
    cases token with
    | leaf block => rw [links_leaf, leaves_leaf, List.map_cons, ih]
    | sep key => rw [links_sep, leaves_sep, ih]

theorem pairs_eq (word : List Token) : pairs word = (leaves word).flatMap Leaf.entries := by
  induction word with
  | nil => rfl
  | cons token word ih =>
    cases token with
    | leaf block => rw [pairs_leaf, leaves_leaf, List.flatMap_cons, ih]
    | sep key => rw [pairs_sep, leaves_sep, ih]

theorem leaf_of_weave {height : Nat} {keys : List Key} {children : List (Tree height)} {leaf : Leaf}
    (member : leaf ∈ leaves (weave Token.sep Tree.word keys children)) : ∃ child ∈ children, leaf ∈ leaves child.word := by
  induction keys generalizing children with
  | nil =>
    induction children with
    | nil => exact absurd member List.not_mem_nil
    | cons child children ih =>
      rw [weave, List.flatMap_cons, leaves_append] at member
      rcases List.mem_append.mp member with here | there
      · exact ⟨child, List.mem_cons_self, here⟩
      · obtain ⟨other, inside, found⟩ := ih there
        exact ⟨other, List.mem_cons_of_mem _ inside, found⟩
  | cons key keys ih =>
    cases children with
    | nil => exact absurd member List.not_mem_nil
    | cons child children =>
      rw [weave, leaves_append, leaves_sep] at member
      rcases List.mem_append.mp member with here | there
      · exact ⟨child, List.mem_cons_self, here⟩
      · obtain ⟨other, inside, found⟩ := ih there
        exact ⟨other, List.mem_cons_of_mem _ inside, found⟩

theorem Tree.child_nodes {height : Nat} {id : PageId} {keys : List Key} {children : List (Tree height)}
    {child : Tree height} (member : child ∈ children) {node : BPlusTreeNode} (inside : node ∈ child.nodes id) :
    node ∈ (Tree.inner id keys children).below := by
  obtain ⟨before, after, rfl⟩ := List.append_of_mem member
  rw [Tree.inner_below, List.map_append, List.sum_append, List.map_cons, List.sum_cons]
  exact Multiset.mem_add.mpr (.inr (Multiset.mem_add.mpr (.inl inside)))

theorem Tree.leaf_nodes {height : Nat} (tree : Tree height) (parent : PageId) {leaf : Leaf}
    (member : leaf ∈ leaves tree.word) : ∃ above, (Tree.leaf leaf).node above ∈ tree.nodes parent := by
  induction height generalizing parent with
  | zero =>
    have same : leaf = tree := List.mem_singleton.mp member
    exact ⟨parent, same ▸ tree.mem_nodes parent⟩
  | succ height ih =>
    obtain ⟨id, keys, children, rfl⟩ := tree.exists_inner
    obtain ⟨child, inside, found⟩ := leaf_of_weave member
    obtain ⟨above, there⟩ := ih child id found
    exact ⟨above, Multiset.mem_add.mpr (.inr (Tree.child_nodes inside there))⟩

section Scan

variable {start stop : Key}

def inRange (start stop : Key) (pair : Key × Value) : Bool := start ≤ pair.1 ∧ pair.1 ≤ stop

theorem filter_past {entries : List (Key × Value)} (past : ∀ pair ∈ entries, stop < pair.1) :
    entries.filter (inRange start stop) = [] := by
  rw [List.filter_eq_nil_iff]
  intro pair member inside
  simp only [inRange, decide_eq_true_eq] at inside
  exact absurd inside.2 (past pair member).not_ge

theorem filter_short {entries : List (Key × Value)} (short : ∀ pair ∈ entries, pair.1 < start) :
    entries.filter (inRange start stop) = [] := by
  rw [List.filter_eq_nil_iff]
  intro pair member inside
  simp only [inRange, decide_eq_true_eq] at inside
  exact absurd inside.1 (short pair member).not_ge

theorem scanEntries_eq {entries : List (Key × Value)} (sorted : entries.Pairwise fun one two => one.1 < two.1)
    (out : List (Key × Value)) :
    ∃ returned, scanEntries start stop (entries.map Prod.fst) (entries.map Prod.snd) out =
        pure (out ++ entries.filter (inRange start stop), returned) ∧
      (returned = true → ∃ pair ∈ entries, stop < pair.1) := by
  induction entries generalizing out with
  | nil => exact ⟨false, by rw [List.filter_nil, List.append_nil]; rfl, fun impossible => nomatch impossible⟩
  | cons first entries ih =>
    obtain ⟨head, rest⟩ := List.pairwise_cons.mp sorted
    rw [List.map_cons, List.map_cons, scanEntries]
    by_cases short : first.1 < start
    · obtain ⟨returned, ran, why⟩ := ih rest out
      have skipped : ¬ inRange start stop first = true := by
        simp only [inRange, decide_eq_true_eq]
        exact fun inside => absurd inside.1 short.not_ge
      refine ⟨returned, ?_, fun done => ?_⟩
      · rw [if_pos short, List.filter_cons_of_neg skipped]
        exact ran
      · obtain ⟨pair, member, past⟩ := why done
        exact ⟨pair, List.mem_cons_of_mem _ member, past⟩
    · rw [if_neg short]
      by_cases past : first.1 > stop
      · refine ⟨true, ?_, fun _ => ⟨first, List.mem_cons_self, past⟩⟩
        have all : ∀ pair ∈ first :: entries, stop < pair.1 := by
          intro pair member
          rcases List.mem_cons.mp member with rfl | behind
          · exact past
          · exact past.trans (head pair behind)
        rw [if_pos past, filter_past all, List.append_nil]
      · obtain ⟨returned, ran, why⟩ := ih rest (out ++ [first])
        have taken : inRange start stop first = true := by
          simp only [inRange, decide_eq_true_eq]
          exact ⟨not_lt.mp short, not_lt.mp past⟩
        refine ⟨returned, ?_, fun done => ?_⟩
        · rw [if_neg past, List.filter_cons_of_pos taken, List.head?_cons, checked_some, List.tail_cons, ran,
            List.append_assoc, List.singleton_append]
        · obtain ⟨pair, member, beyond⟩ := why done
          exact ⟨pair, List.mem_cons_of_mem _ member, beyond⟩

theorem scanLeaves_reads {nodes : Multiset BPlusTreeNode} {chain : List Leaf}
    (stored : ∀ leaf ∈ chain, ∃ above, (Tree.leaf leaf).node above ∈ nodes)
    (chained : Chained invalidPageId (chain.map fun leaf => (leaf.id, leaf.next)))
    (sorted : (chain.flatMap Leaf.entries).Pairwise fun one two => one.1 < two.1)
    {rounds : Nat} (enough : chain.length < rounds) (out : List (Key × Value))
    (real : ∀ node ∈ nodes, node.pageId ≠ invalidPageId) :
    Reads root nodes (fun result => result = out ++ (chain.flatMap Leaf.entries).filter (inRange start stop))
      (scanLeaves start stop rounds (chainHead invalidPageId (chain.map fun leaf => (leaf.id, leaf.next))) out) := by
  induction chain generalizing rounds out with
  | nil =>
    obtain ⟨rounds, rfl⟩ := Nat.exists_eq_add_of_lt enough
    rw [List.map_nil, chainHead, scanLeaves, if_pos rfl]
    exact .done (by rw [List.flatMap_nil, List.filter_nil, List.append_nil])
  | cons leaf chain ih =>
    obtain ⟨rounds, rfl⟩ := Nat.exists_eq_add_of_lt enough
    obtain ⟨above, member⟩ := stored leaf List.mem_cons_self
    have here : leaf.id ≠ invalidPageId := real _ member
    rw [List.flatMap_cons] at sorted
    obtain ⟨own, rest, across⟩ := List.pairwise_append.mp sorted
    rw [List.map_cons, chainHead, scanLeaves, if_neg here]
    refine .read member ?_
    obtain ⟨returned, ran, why⟩ := scanEntries_eq own out
    change Reads _ _ _ (scanEntries start stop (leaf.entries.map Prod.fst) (leaf.entries.map Prod.snd) out >>= _)
    rw [ran, List.flatMap_cons, List.filter_append, ← List.append_assoc]
    change Reads _ _ _ (if returned = true then pure (out ++ leaf.entries.filter (inRange start stop)) else
      scanLeaves start stop ((leaf :: chain).length + rounds) leaf.next (out ++ leaf.entries.filter (inRange start stop)))
    cases returned with
    | true =>
      obtain ⟨pair, inside, past⟩ := why rfl
      have all : ∀ other ∈ chain.flatMap Leaf.entries, stop < other.1 :=
        fun other behind => past.trans (across pair inside other behind)
      rw [if_pos rfl, filter_past all, List.append_nil]
      exact .done rfl
    | false =>
      have next : leaf.next = chainHead invalidPageId (chain.map fun leaf => (leaf.id, leaf.next)) := chained.1
      rw [if_neg Bool.false_ne_true, next]
      exact ih (fun other inside => stored other (List.mem_cons_of_mem _ inside)) chained.2 rest (by rw [List.length_cons]; omega) _

end Scan

theorem rangeScan_reads {height : Nat} {tree : Tree height} (good : tree.RootShaped) (ordered : Ordered tree.word)
    {rounds : Nat} (enough : height < rounds) (leafRounds : (leaves tree.word).length < rounds)
    (start stop : Key) (out : List (Key × Value)) (real : ∀ node ∈ tree.nodes invalidPageId, node.pageId ≠ invalidPageId) :
    Reads tree.id (tree.nodes invalidPageId) (fun result => result = out ++ (pairs tree.word).filter (inRange start stop))
      (rangeScan rounds start stop out) := by
  have here := real _ (tree.mem_nodes _)
  rw [Tree.node_pageId] at here
  apply Reads.root
  by_cases empty : start > stop
  · rw [if_pos (.inr empty)]
    have none : (pairs tree.word).filter (inRange start stop) = [] := by
      rw [List.filter_eq_nil_iff]
      intro pair member inside
      simp only [inRange, decide_eq_true_eq] at inside
      exact absurd (inside.1.trans inside.2) empty.not_ge
    rw [none, List.append_nil]
    exact .done rfl
  · rw [if_neg (not_or.mpr ⟨here, empty⟩)]
    refine (@findLeaf_reads start _ _ good ordered _ enough real).seq ?_
    rintro pageId ⟨context, leaf, rfl, located⟩
    have word : tree.word = context.left ++ (.leaf leaf :: context.right) := located.word
    have split : leaves tree.word = leaves context.left ++ leaf :: leaves context.right := by
      rw [word, leaves_append, leaves_leaf]
    have stored : ∀ other ∈ leaf :: leaves context.right,
        ∃ above, (Tree.leaf other).node above ∈ tree.nodes invalidPageId := by
      intro other member
      apply tree.leaf_nodes
      rw [split]
      exact List.mem_append.mpr (.inr member)
    have chained := ordered.chained
    rw [links_eq, split, List.map_append, chained_append] at chained
    have sorted := ordered.pairs
    rw [pairs_eq, split, List.flatMap_append] at sorted
    have few : (leaf :: leaves context.right).length < rounds := by
      rw [split, List.length_append] at leafRounds
      omega
    have before : (pairs context.left).filter (inRange start stop) = [] := filter_short located.left_pairs
    rw [pairs_eq tree.word, split, List.flatMap_append, List.filter_append, ← pairs_eq context.left, before,
      List.nil_append]
    exact scanLeaves_reads stored chained.2 (List.pairwise_append.mp sorted).2.1 few out real

section FirstKey

theorem Tree.Shaped.first_leaf {height : Nat} {tree : Tree height} {least : Nat} (shaped : tree.Shaped least) :
    ∃ leaf rest, tree.word = .leaf leaf :: rest := by
  induction height generalizing least with
  | zero => exact ⟨tree, [], rfl⟩
  | succ height ih =>
    obtain ⟨id, keys, children, rfl⟩ := tree.exists_inner
    obtain ⟨-, -, sizes, good⟩ := Tree.inner_shaped.mp shaped
    cases children with
    | nil => cases sizes
    | cons child children =>
      obtain ⟨leaf, rest, word⟩ := ih (good child List.mem_cons_self)
      rw [Tree.inner_word, weave_cons (Nat.succ.inj sizes).symm, word]
      exact ⟨leaf, _, rfl⟩

theorem firstKeyFrom_spec {nodes : Multiset BPlusTreeNode} {height : Nat} {tree : Tree height} {least : Nat}
    (shaped : tree.Shaped least) {parent : PageId} (stored : ∀ node ∈ tree.below, node ∈ nodes)
    {leaf : Leaf} {rest : List Token} (word : tree.word = .leaf leaf :: rest) {first : Key × Value}
    {others : List (Key × Value)} (entries : leaf.entries = first :: others) {rounds : Nat} (enough : height < rounds)
    (holding : Holding store root nodes base) :
    Proceeds (firstKeyFrom rounds (tree.node parent)) (fun key later => key = first.1 ∧ Holding later root nodes base)
      store := by
  induction height generalizing rounds store parent rest least with
  | zero =>
    obtain ⟨rounds, rfl⟩ := Nat.exists_eq_add_of_lt enough
    have same : tree = leaf := Token.leaf.inj (List.cons.inj word).1
    have isLeaf : (tree.node parent).isLeaf = true := rfl
    rw [firstKeyFrom, if_pos isLeaf]
    refine proceeds_tail ?_
    have keys : (tree.node parent).keys.head? = some first.1 := by
      rw [same]
      change (leaf.entries.map Prod.fst).head? = some first.1
      rw [entries]
      rfl
    rw [keys, checked_some]
    exact ⟨rfl, holding⟩
  | succ height ih =>
    obtain ⟨rounds, rfl⟩ := Nat.exists_eq_add_of_lt enough
    obtain ⟨id, keys, children, rfl⟩ := tree.exists_inner
    obtain ⟨-, -, sizes, good⟩ := Tree.inner_shaped.mp shaped
    cases children with
    | nil => cases sizes
    | cons child children =>
      have inside : ∀ node ∈ child.nodes id, node ∈ nodes :=
        fun node member => stored node (Tree.child_nodes List.mem_cons_self member)
      obtain ⟨start, more, begins⟩ := (good child List.mem_cons_self).first_leaf
      change (Tree.inner id keys (child :: children)).word = _ at word
      rw [Tree.inner_word, weave_cons (Nat.succ.inj sizes).symm, begins, List.cons_append] at word
      have same : start = leaf := Token.leaf.inj (List.cons.inj word).1
      rw [firstKeyFrom, if_neg (by exact Bool.false_ne_true)]
      change Proceeds (checked (some child.id) >>= _) _ store
      rw [checked_some]
      refine holding.read (inside _ (child.mem_nodes id)) (Tree.node_pageId child).symm fun later still => ?_
      rw [same] at begins
      exact ih (good child List.mem_cons_self) (fun node below => inside node (Multiset.mem_add.mpr (.inr below)))
        begins (by omega) still

end FirstKey

end QuorumDB.Storage
