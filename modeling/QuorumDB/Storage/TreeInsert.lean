import QuorumDB.Storage.TreeOrder
import QuorumDB.Storage.TreeRaise

/-!
Insert. A split hands two neighbours and the separator between them to the parent, which
takes them in or splits in turn; the word of the tree changes only where the key goes in.
-/

namespace QuorumDB.Storage
open PageProg SearchWord Interleave Sequence BPlusTree

variable {store : TreeStore} {root : PageId} {base : Multiset (PageId × Cell)} {height : Nat}

def Rooted (store : TreeStore) (base : Multiset (PageId × Cell)) (word : List Token) : Prop :=
  ∃ (height : Nat) (tree : Tree height), tree.RootShaped ∧ tree.word = word ∧
    Holding store tree.id (tree.nodes invalidPageId) base

theorem Rooted.of_context {context : Context height} (shaped : context.Shaped) {tree : Tree height}
    (good : tree.Shaped context.least)
    (holding : Holding store (context.rootId tree.id) (context.nodes tree.id + tree.nodes context.parentId) base) :
    Rooted store base (context.left ++ (tree.word ++ context.right)) := by
  refine ⟨(context.plug tree).1, (context.plug tree).2, Context.plug_shaped shaped good,
    Context.plug_word shaped tree, ?_⟩
  rw [Context.plug_id, Context.plug_nodes]
  exact holding

/-- A node around two neighbours in place of one. -/
def Gap.pair (gap : Gap (Tree height)) (left : Tree height) (separator : Key) (right : Tree height) : Tree (height + 1) :=
  .inner gap.id (gap.keysBefore ++ separator :: gap.keysAfter) (gap.before ++ left :: right :: gap.after)

theorem Gap.pair_word {gap : Gap (Tree height)} {least : Nat} (shaped : gap.Shaped least) (left right : Tree height)
    (separator : Key) : (gap.pair left separator right).word =
      weaveLeft Token.sep Tree.word gap.keysBefore gap.before ++ ((left.word ++ .sep separator :: right.word) ++
        weaveRight Token.sep Tree.word gap.keysAfter gap.after) := by
  have sizes := shaped.after
  have behind : (separator :: gap.keysAfter).length = (right :: gap.after).length := by
    rw [List.length_cons, List.length_cons, sizes]
  rw [Gap.pair, Tree.inner_word, weave_middle shaped.before behind, weaveRight, List.append_assoc, List.cons_append]

theorem Gap.pair_below (gap : Gap (Tree height)) (left right : Tree height) (separator : Key) :
    (gap.pair left separator right).below = gap.siblings + left.nodes gap.id + right.nodes gap.id := by
  rw [Gap.pair, Tree.inner_below, List.map_append, List.sum_append, List.map_cons, List.sum_cons, List.map_cons,
    List.sum_cons, Gap.siblings]
  abel

theorem Gap.pair_count (gap : Gap (Tree height)) (left right : Tree height) (separator : Key) (parent : PageId) :
    ((gap.pair left separator right).node parent).keys.length = gap.keysBefore.length + gap.keysAfter.length + 1 := by
  change (gap.keysBefore ++ separator :: gap.keysAfter).length = _
  rw [List.length_append, List.length_cons]
  rfl

theorem Gap.pair_children {gap : Gap (Tree height)} {least : Nat} (shaped : gap.Shaped least) {left right : Tree height}
    (goodLeft : left.Shaped (maxKeys / 2)) (goodRight : right.Shaped (maxKeys / 2)) :
    ∀ child ∈ gap.before ++ left :: right :: gap.after, child.Shaped (maxKeys / 2) := by
  intro child member
  rcases List.mem_append.mp member with before | other
  · exact shaped.left child before
  · rcases List.mem_cons.mp other with rfl | other
    · exact goodLeft
    · rcases List.mem_cons.mp other with rfl | after
      · exact goodRight
      · exact shaped.right child after

theorem Gap.pair_vectors {gap : Gap (Tree height)} {least : Nat} (shaped : gap.Shaped least) (left right : Tree height)
    (separator : Key) (parent : PageId) :
    insertAt? (gap.node left.id parent).keys gap.before.length separator =
        some ((gap.pair left separator right).node parent).keys ∧
      insertAt? (gap.node left.id parent).children (gap.before.length + 1) right.id =
        some ((gap.pair left separator right).node parent).children := by
  constructor
  · exact insertAt?_append shaped.before
  · have split : (gap.node left.id parent).children =
        (gap.before.map Tree.id ++ [left.id]) ++ gap.after.map Tree.id := by
      rw [Gap.node, List.append_assoc]
      rfl
    rw [split, insertAt?_append (by rw [List.length_append, List.length_map]; rfl)]
    simp [Gap.pair, Tree.inner_node]

theorem exists_halves {Item Other : Type} {keys : List Item} {children : List Other} (five : keys.length = 5)
    (six : children.length = 6) : ∃ before middle after left right, keys = before ++ middle :: after ∧
      children = left ++ right ∧ before.length = 2 ∧ after.length = 2 ∧ left.length = 3 ∧ right.length = 3 := by
  refine ⟨keys.take 2, keys[2], keys.drop 3, children.take 3, children.drop 3, ?_, ?_, ?_, ?_, ?_, ?_⟩
  · rw [List.getElem_cons_drop, List.take_append_drop]
  · rw [List.take_append_drop]
  all_goals simp only [List.length_take, List.length_drop]; omega

/-- The parent of two neighbours, cut around the separator that goes up. -/
structure Gap.Halved (gap : Gap (Tree height)) (left : Tree height) (separator : Key) (right : Tree height)
    (lowKeys : List Key) (promoted : Key) (highKeys : List Key) (low high : List (Tree height)) : Prop where
  keys : gap.keysBefore ++ separator :: gap.keysAfter = lowKeys ++ promoted :: highKeys
  children : gap.before ++ left :: right :: gap.after = low ++ high
  middle : (lowKeys ++ promoted :: highKeys).length / 2 = lowKeys.length
  cut : low.length = lowKeys.length + 1
  lower : ∀ id, (Tree.inner id lowKeys low).Shaped (maxKeys / 2)
  higher : ∀ id, (Tree.inner id highKeys high).Shaped (maxKeys / 2)

theorem Gap.exists_halved {gap : Gap (Tree height)} {least : Nat} (shaped : gap.Shaped least) {left right : Tree height}
    (goodLeft : left.Shaped (maxKeys / 2)) (goodRight : right.Shaped (maxKeys / 2)) (separator : Key)
    (full : gap.keysBefore.length + gap.keysAfter.length = 4) :
    ∃ lowKeys promoted highKeys low high, gap.Halved left separator right lowKeys promoted highKeys low high := by
  have five : (gap.keysBefore ++ separator :: gap.keysAfter).length = 5 := by
    rw [List.length_append, List.length_cons]
    omega
  have six : (gap.before ++ left :: right :: gap.after).length = 6 := by
    rw [List.length_append, List.length_cons, List.length_cons, ← shaped.before, ← shaped.after]
    omega
  obtain ⟨lowKeys, promoted, highKeys, low, high, keySplit, childSplit, lowTwo, highTwo, lowThree, highThree⟩ :=
    exists_halves five six
  have good := Gap.pair_children shaped goodLeft goodRight
  have lower : ∀ child ∈ low, child.Shaped (maxKeys / 2) :=
    fun child member => good child (childSplit ▸ List.mem_append.mpr (.inl member))
  have higher : ∀ child ∈ high, child.Shaped (maxKeys / 2) :=
    fun child member => good child (childSplit ▸ List.mem_append.mpr (.inr member))
  refine ⟨lowKeys, promoted, highKeys, low, high, keySplit, childSplit, ?_, ?_, fun id => ?_, fun id => ?_⟩
  · rw [List.length_append, List.length_cons, lowTwo, highTwo]
  · rw [lowTwo, lowThree]
  · exact Tree.inner_shaped.mpr ⟨lowTwo.ge, by rw [lowTwo]; decide, by rw [lowTwo, lowThree], lower⟩
  · exact Tree.inner_shaped.mpr ⟨highTwo.ge, by rw [highTwo]; decide, by rw [highTwo, highThree], higher⟩

section Halved

variable {gap : Gap (Tree height)} {left right : Tree height} {separator promoted : Key} {lowKeys highKeys : List Key}
  {low high : List (Tree height)}

theorem Gap.Halved.nodes (halved : gap.Halved left separator right lowKeys promoted highKeys low high) :
    gap.siblings + left.nodes gap.id + right.nodes gap.id =
      (low.map (Tree.nodes gap.id)).sum + (high.map (Tree.nodes gap.id)).sum := by
  have below := Gap.pair_below gap left right separator
  rw [← below, ← List.sum_append, ← List.map_append, ← halved.children]
  rfl

theorem Gap.Halved.word (halved : gap.Halved left separator right lowKeys promoted highKeys low high)
    (id newId : PageId) : (Tree.inner id lowKeys low).word ++ .sep promoted :: (Tree.inner newId highKeys high).word =
      (gap.pair left separator right).word := by
  change weave Token.sep Tree.word lowKeys low ++ Token.sep promoted :: weave Token.sep Tree.word highKeys high =
    weave Token.sep Tree.word (gap.keysBefore ++ separator :: gap.keysAfter) (gap.before ++ left :: right :: gap.after)
  rw [halved.keys, halved.children, weave_join halved.cut]

end Halved

/-- Two halves of the root get a new one above them. -/
theorem insertIntoParent_top {left right : Tree height} (goodLeft : left.Shaped (maxKeys / 2))
    (goodRight : right.Shaped (maxKeys / 2)) (separator : Key) (rounds : Nat)
    (holding : Holding store left.id (left.nodes invalidPageId + right.nodes invalidPageId) base) :
    Proceeds (Strict.insertIntoParent (rounds + 1) (left.node invalidPageId) separator (right.node invalidPageId))
      (fun _ later => Rooted later base (left.word ++ .sep separator :: right.word)) store := by
  rw [Strict.insertIntoParent, Tree.node_parentId, if_pos rfl]
  simp only [Tree.node_reparent]
  simp only [Tree.node_pageId]
  have few : [separator].length ≤ maxKeys := Nat.succ_pos 3
  refine holding.create ⟨few, fun impossible => absurd impossible Bool.false_ne_true, fun _ => ⟨rfl, rfl⟩⟩
    fun rootId later made => ?_
  let grown : Tree (height + 1) := .inner rootId [separator] [left, right]
  refine made.setRoot fun later named => ?_
  refine named.write (left.node invalidPageId)
    ({grown.node invalidPageId} + left.below + right.nodes invalidPageId) ?_ ?_ (goodLeft.fits _) fun later one => ?_
  · rw [Tree.nodes]
    change {grown.node invalidPageId} + _ = _
    abel
  · rw [Tree.node_pageId, Tree.node_pageId]
  refine one.write (right.node invalidPageId)
    ({grown.node invalidPageId} + left.nodes rootId + right.below) ?_ ?_ (goodRight.fits _) fun later two => ?_
  · rw [Tree.nodes, Tree.nodes]
    abel
  · rw [Tree.node_pageId, Tree.node_pageId]
  refine ⟨height + 1, grown, ?_, ?_, two.cast ?_⟩
  · refine Tree.inner_shaped.mpr ⟨by simp, few, rfl, fun child member => ?_⟩
    rcases List.mem_cons.mp member with rfl | other
    · exact goodLeft
    · rw [List.mem_singleton.mp other]
      exact goodRight
  · change left.word ++ .sep separator :: weave Token.sep Tree.word [] [right] = _
    rw [weave_one]
  · have below : grown.below = left.nodes rootId + right.nodes rootId := by
      rw [Tree.inner_below, List.map_cons, List.sum_cons, List.map_cons, List.sum_cons, List.map_nil, List.sum_nil,
        add_zero]
    change _ = {grown.node invalidPageId} + grown.below
    rw [below, Tree.nodes, Tree.nodes]
    abel

section UnderParent

variable {gap : Gap (Tree height)} {above : Context (height + 1)} {left right : Tree height} {separator : Key}

/-- The parent takes in both neighbours. -/
theorem insertIntoParent_takes (shaped : (Context.under gap above).Shaped) (goodLeft : left.Shaped (maxKeys / 2))
    (goodRight : right.Shaped (maxKeys / 2))
    (fits : ((gap.pair left separator right).node above.parentId).keys.length ≤ maxKeys)
    (holding : Holding store (above.rootId gap.id) ({right.node gap.id} + ({gap.node left.id above.parentId} +
      above.nodes gap.id + right.below + gap.siblings + left.nodes gap.id)) base) :
    Proceeds (writeNode ((gap.pair left separator right).node above.parentId) >>= fun _ => pure ())
      (fun _ later => Rooted later base (above.left ++ ((gap.pair left separator right).word ++ above.right)))
      store := by
  have whole : (gap.pair left separator right).Shaped above.least := by
    have least := shaped.1.least
    have count := gap.pair_count left right separator above.parentId
    have sizes : (gap.pair left separator right).children.length =
        ((gap.pair left separator right).node above.parentId).keys.length + 1 := by
      rw [count, shaped.1.before, shaped.1.after]
      change (gap.before ++ left :: right :: gap.after).length = _
      rw [List.length_append, List.length_cons, List.length_cons]
      omega
    refine Tree.inner_shaped.mpr ⟨?_, fits, sizes, Gap.pair_children shaped.1 goodLeft goodRight⟩
    change _ ≤ ((gap.pair left separator right).node above.parentId).keys.length
    omega
  refine holding.write (gap.node left.id above.parentId) (above.nodes gap.id + gap.siblings + left.nodes gap.id +
    right.nodes gap.id) ?_ rfl (whole.fits above.parentId) fun later three => ?_
  · rw [right.nodes_eq]
    abel
  refine proceeds_pure.mpr (Rooted.of_context shaped.2 whole (three.cast ?_))
  rw [(gap.pair left separator right).nodes_eq, Gap.pair_below]
  change {(gap.pair left separator right).node above.parentId} + _ = above.nodes gap.id + _
  abel

/-- The parent splits. Its left half keeps its page, the children of the right half get a new parent,
and the two halves are handed on. -/
theorem insertIntoParent_splits {promoted : Key} {lowKeys highKeys : List Key} {low high : List (Tree height)}
    (halved : gap.Halved left separator right lowKeys promoted highKeys low high) {rest : PageId → PageProg Unit}
    {post : Unit → TreeStore → Prop}
    (holding : Holding store (above.rootId gap.id) ({right.node gap.id} + ({gap.node left.id above.parentId} +
      above.nodes gap.id + right.below + gap.siblings + left.nodes gap.id)) base)
    (handedOn : ∀ newId later, Holding later (above.rootId gap.id) (above.nodes gap.id +
      (Tree.inner gap.id lowKeys low).nodes above.parentId + (Tree.inner newId highKeys high).nodes above.parentId) base →
      Proceeds (rest newId) post later) :
    Proceeds (createNode ((Tree.inner invalidPageId highKeys high).node above.parentId) >>= fun newId =>
      setChildrenParent (high.map Tree.id) newId >>= fun _ =>
        writeNode ((Tree.inner gap.id lowKeys low).node above.parentId) >>= fun _ => rest newId) post store := by
  refine holding.create ((halved.higher invalidPageId).fits _) fun newId later three => ?_
  refine (setChildrenParent_spec (fun child member => (Tree.inner_shaped.mp (halved.higher newId)).2.2.2 child member)
    gap.id newId ({(Tree.inner newId highKeys high).node above.parentId} + {gap.node left.id above.parentId} +
      above.nodes gap.id + (low.map (Tree.nodes gap.id)).sum) (three.cast ?_)).seq fun _ later four => ?_
  · have grouping : {right.node gap.id} + ({gap.node left.id above.parentId} + above.nodes gap.id + right.below +
        gap.siblings + left.nodes gap.id) = {gap.node left.id above.parentId} + above.nodes gap.id +
          (gap.siblings + left.nodes gap.id + right.nodes gap.id) := by
      rw [right.nodes_eq]
      abel
    rw [grouping, halved.nodes]
    change {(Tree.inner newId highKeys high).node above.parentId} + _ = _
    abel
  refine four.write (gap.node left.id above.parentId) ((high.map (Tree.nodes newId)).sum +
    {(Tree.inner newId highKeys high).node above.parentId} + above.nodes gap.id + (low.map (Tree.nodes gap.id)).sum)
    ?_ rfl ((halved.lower gap.id).fits above.parentId) fun later five => ?_
  · abel
  refine handedOn newId later (five.cast ?_)
  rw [Tree.nodes_eq, Tree.nodes_eq, Tree.inner_below, Tree.inner_below]
  abel

end UnderParent

theorem insertIntoParent_spec {context : Context height} (shaped : context.Shaped) {left right : Tree height}
    (goodLeft : left.Shaped (maxKeys / 2)) (goodRight : right.Shaped (maxKeys / 2)) (separator : Key)
    {rounds : Nat} (enough : context.depth < rounds)
    (holding : Holding store (context.rootId left.id)
      (context.nodes left.id + left.nodes context.parentId + right.nodes context.parentId) base) :
    Proceeds (Strict.insertIntoParent rounds (left.node context.parentId) separator (right.node context.parentId))
      (fun _ later => Rooted later base
        (context.left ++ ((left.word ++ .sep separator :: right.word) ++ context.right))) store := by
  induction context generalizing rounds store separator with
  | @top height =>
    obtain ⟨rounds, rfl⟩ := Nat.exists_eq_add_of_lt enough
    rw [Context.left, Context.right, List.nil_append, List.append_nil]
    refine insertIntoParent_top goodLeft goodRight separator _ (holding.cast ?_)
    rw [Context.nodes, Context.parentId, zero_add]
  | @under height gap above ih =>
    obtain ⟨rounds, rfl⟩ := Nat.exists_eq_add_of_lt enough
    have deeper : (Context.under gap above).depth = above.depth + 1 := rfl
    have parentMember : gap.node left.id above.parentId ∈ (Context.under gap above).nodes left.id +
        left.nodes (Context.under gap above).parentId + right.nodes (Context.under gap above).parentId :=
      Multiset.mem_add.mpr (.inl (Multiset.mem_add.mpr (.inl (Multiset.mem_add.mpr (.inl (Multiset.mem_add.mpr
        (.inl (Multiset.mem_singleton_self _))))))))
    have real : gap.id ≠ invalidPageId := holding.nonneg parentMember
    rw [Strict.insertIntoParent, Tree.node_parentId, Context.parentId, if_neg real]
    simp only [Tree.node_reparent]
    simp only [Tree.node_pageId]
    refine holding.read parentMember rfl fun later one => ?_
    have grouped : Holding later (above.rootId gap.id) (({gap.node left.id above.parentId} + above.nodes gap.id +
        right.nodes gap.id + gap.siblings) + left.nodes gap.id) base := by
      refine one.cast ?_
      rw [Context.nodes, Context.parentId]
      abel
    obtain ⟨keys, children⟩ := Gap.pair_vectors shaped.1 left right separator above.parentId
    simp only [Gap.find_eq grouped, keys, children, checked_some]
    have pageId : (gap.node left.id above.parentId).pageId = gap.id := rfl
    simp only [pageId]
    refine grouped.write (right.node gap.id) ({gap.node left.id above.parentId} + above.nodes gap.id + right.below +
      gap.siblings + left.nodes gap.id) ?_ rfl (goodRight.fits _) fun later two => ?_
    · rw [right.nodes_eq]
      abel
    rw [Context.left, Context.right]
    by_cases fits : ((gap.pair left separator right).node above.parentId).keys.length ≤ maxKeys
    · rw [if_pos fits]
      refine (insertIntoParent_takes shaped goodLeft goodRight fits two).mono fun _ later done => ?_
      rw [Gap.pair_word shaped.1] at done
      simp only [List.append_assoc] at done ⊢
      exact done
    · rw [if_neg fits]
      have full : gap.keysBefore.length + gap.keysAfter.length = 4 := by
        have most := shaped.1.most
        have count := gap.pair_count left right separator above.parentId
        unfold maxKeys at most fits
        omega
      obtain ⟨lowKeys, promoted, highKeys, low, high, halved⟩ :=
        Gap.exists_halved shaped.1 goodLeft goodRight separator full
      have grownKeys : ((gap.pair left separator right).node above.parentId).keys = lowKeys ++ promoted :: highKeys :=
        halved.keys
      have grownChildren : ((gap.pair left separator right).node above.parentId).children =
          low.map Tree.id ++ high.map Tree.id := by
        rw [← List.map_append, ← halved.children]
        rfl
      have cut : lowKeys.length + 1 = (low.map Tree.id).length := by rw [List.length_map, halved.cut]
      have dropKeys : (lowKeys ++ promoted :: highKeys).drop (lowKeys.length + 1) = highKeys := drop_middle rfl
      have parentId : (gap.node left.id above.parentId).parentId = above.parentId := rfl
      simp only [grownKeys, grownChildren, halved.middle, getElem?_middle, checked_some, dropKeys, List.take_left,
        parentId]
      simp only [cut, List.drop_left, List.take_left]
      refine insertIntoParent_splits halved two fun newId later five => ?_
      refine (ih shaped.2 (halved.lower gap.id) (halved.higher newId) promoted (by omega) five).mono
        fun _ later done => ?_
      rw [halved.word, Gap.pair_word shaped.1] at done
      simp only [List.append_assoc] at done ⊢
      exact done

theorem exists_cut {Item : Type} {items : List Item} (five : items.length = 5) :
    ∃ before last first after, items = (before ++ [last]) ++ first :: after ∧ before.length = 2 ∧ after.length = 1 := by
  refine ⟨items.take 2, items[2], items[3], items.drop 4, ?_, ?_, ?_⟩
  · rw [List.append_assoc, List.singleton_append, List.getElem_cons_drop, List.getElem_cons_drop, List.take_append_drop]
  all_goals simp only [List.length_take, List.length_drop]; omega

theorem splitLeaf_spec {context : Context 0} (shaped : context.Shaped) {id next : PageId}
    {entries old : List (Key × Value)} (full : entries.length = 5) {rounds : Nat} (enough : context.depth < rounds)
    (holding : Holding store (context.rootId id)
      (context.nodes id + (Tree.leaf ⟨id, old, next⟩).nodes context.parentId) base)
    (ordered : Ordered (context.left ++ .leaf ⟨id, entries, next⟩ :: context.right)) :
    Proceeds (Strict.splitLeaf rounds ((Tree.leaf ⟨id, entries, next⟩).node context.parentId)) (fun inserted later =>
      inserted = true ∧ ∃ word, Rooted later base word ∧ Ordered word ∧
        pairs word = pairs (context.left ++ .leaf ⟨id, entries, next⟩ :: context.right)) store := by
  obtain ⟨before, last, first, after, rfl, two, one⟩ := exists_cut full
  have lowCount : (before ++ [last]).length = 3 := by rw [List.length_append, two, List.length_singleton]
  have highCount : (first :: after).length = 2 := by rw [List.length_cons, one]
  have index : (((before ++ [last]) ++ first :: after).length + 1) / 2 = (before ++ [last]).length := by
    rw [full, lowCount]
  have keys : ((Tree.leaf ⟨id, (before ++ [last]) ++ first :: after, next⟩).node context.parentId).keys =
      (before ++ [last]).map Prod.fst ++ (first :: after).map Prod.fst := List.map_append
  have values : ((Tree.leaf ⟨id, (before ++ [last]) ++ first :: after, next⟩).node context.parentId).values =
      (before ++ [last]).map Prod.snd ++ (first :: after).map Prod.snd := List.map_append
  have keyCount : (((before ++ [last]).map Prod.fst ++ (first :: after).map Prod.fst).length + 1) / 2 =
      (before ++ [last]).length := by
    rw [← List.map_append, List.length_map, index]
  have goodHigh : ∀ page, (Tree.leaf ⟨page, first :: after, next⟩).Shaped (maxKeys / 2) :=
    fun page => Tree.leaf_shaped.mpr ⟨highCount.ge, by rw [highCount]; decide⟩
  have goodLow : ∀ page, (Tree.leaf ⟨id, before ++ [last], page⟩).Shaped (maxKeys / 2) :=
    fun page => Tree.leaf_shaped.mpr ⟨by rw [lowCount]; decide, by rw [lowCount]; decide⟩
  have takeKeys : ((before ++ [last]).map Prod.fst ++ (first :: after).map Prod.fst).take (before ++ [last]).length =
      (before ++ [last]).map Prod.fst := List.take_left' (List.length_map _)
  have dropKeys : ((before ++ [last]).map Prod.fst ++ (first :: after).map Prod.fst).drop (before ++ [last]).length =
      (first :: after).map Prod.fst := List.drop_left' (List.length_map _)
  have takeValues : ((before ++ [last]).map Prod.snd ++ (first :: after).map Prod.snd).take (before ++ [last]).length =
      (before ++ [last]).map Prod.snd := List.take_left' (List.length_map _)
  have dropValues : ((before ++ [last]).map Prod.snd ++ (first :: after).map Prod.snd).drop (before ++ [last]).length =
      (first :: after).map Prod.snd := List.drop_left' (List.length_map _)
  rw [Strict.splitLeaf]
  simp only [keys, values, keyCount, takeKeys, dropKeys, takeValues, dropValues]
  refine holding.create ((goodHigh invalidPageId).fits context.parentId) fun rightId later made => ?_
  let low : Leaf := ⟨id, before ++ [last], rightId⟩
  let high : Leaf := ⟨rightId, first :: after, next⟩
  refine made.write ((Tree.leaf ⟨id, old, next⟩).node context.parentId)
    ({(Tree.leaf high).node context.parentId} + context.nodes id) ?_ rfl
    ((goodLow rightId).fits context.parentId) fun later wrote => ?_
  · change {(Tree.leaf high).node context.parentId} + (context.nodes id +
      ({(Tree.leaf ⟨id, old, next⟩).node context.parentId} + 0)) = _
    abel
  rw [List.map_cons, List.head?_cons, checked_some]
  have start : Holding later (context.rootId (Tree.leaf low).id) (context.nodes (Tree.leaf low).id +
      (Tree.leaf low).nodes context.parentId + (Tree.leaf high).nodes context.parentId) base := by
    refine wrote.cast ?_
    change {(Tree.leaf low).node context.parentId} + _ = context.nodes id +
      ({(Tree.leaf low).node context.parentId} + 0) + ({(Tree.leaf high).node context.parentId} + 0)
    abel
  refine (insertIntoParent_spec shaped (goodLow rightId) (goodHigh rightId) first.1 enough start).seq fun _ later done => ?_
  refine ⟨rfl, _, done, ordered.cut rightId, ?_⟩
  change pairs (context.left ++ (Token.leaf low :: Token.sep first.1 :: Token.leaf high :: context.right)) = _
  simp only [pairs_append, pairs_leaf, pairs_sep, List.append_assoc, low, high]

theorem Raised.rooted {context raised : Context 0} {key : Key} {value : Value} {others : List (Key × Value)}
    {id next : PageId} (raising : Raised context raised key)
    (good : (Tree.leaf ⟨id, (key, value) :: others, next⟩).Shaped context.least)
    (ordered : Ordered (context.left ++ .leaf ⟨id, (key, value) :: others, next⟩ :: context.right))
    (holding : Holding store (raised.rootId id) (raised.nodes id +
      (Tree.leaf ⟨id, (key, value) :: others, next⟩).nodes raised.parentId) base) :
    ∃ word, Rooted store base word ∧ Ordered word ∧
      pairs word = pairs (context.left ++ .leaf ⟨id, (key, value) :: others, next⟩ :: context.right) := by
  have rooted := Rooted.of_context raising.shaped (raising.least ▸ good) holding
  refine ⟨_, rooted, ?_⟩
  change Ordered (raised.left ++ .leaf ⟨id, (key, value) :: others, next⟩ :: raised.right) ∧ pairs (raised.left ++
    .leaf ⟨id, (key, value) :: others, next⟩ :: raised.right) = _
  rw [raising.right]
  rcases raising.left with same | ⟨before, old, was, now⟩
  · rw [same]
    exact ⟨ordered, rfl⟩
  · rw [was, List.append_assoc] at ordered
    rw [was, now, List.append_assoc, List.append_assoc]
    exact ⟨ordered.raise, by simp only [pairs_append, pairs_sep, List.singleton_append]⟩

theorem insertIntoLeaf_spec {context : Context 0} (shaped : context.Shaped) {id next : PageId}
    {before after : List (Key × Value)} (good : (Tree.leaf ⟨id, before ++ after, next⟩).Shaped context.least)
    {key : Key} {value : Value} {rounds : Nat} (enough : context.depth < rounds)
    (holding : Holding store (context.rootId id)
      (context.nodes id + (Tree.leaf ⟨id, before ++ after, next⟩).nodes context.parentId) base)
    (ordered : Ordered (context.left ++ .leaf ⟨id, before ++ (key, value) :: after, next⟩ :: context.right)) :
    Proceeds (Strict.insertIntoLeaf rounds ((Tree.leaf ⟨id, before ++ after, next⟩).node context.parentId) before.length
      key value) (fun inserted later => inserted = true ∧ ∃ word, Rooted later base word ∧ Ordered word ∧
        pairs word = pairs (context.left ++ .leaf ⟨id, before ++ (key, value) :: after, next⟩ :: context.right)) store := by
  let grown : Leaf := ⟨id, before ++ (key, value) :: after, next⟩
  have keys : insertAt? ((Tree.leaf ⟨id, before ++ after, next⟩).node context.parentId).keys before.length key =
      some ((Tree.leaf grown).node context.parentId).keys := by
    change insertAt? ((before ++ after).map Prod.fst) before.length key = some ((before ++ (key, value) :: after).map Prod.fst)
    rw [List.map_append, insertAt?_append (List.length_map _), List.map_append, List.map_cons]
  have values : insertAt? ((Tree.leaf ⟨id, before ++ after, next⟩).node context.parentId).values before.length value =
      some ((Tree.leaf grown).node context.parentId).values := by
    change insertAt? ((before ++ after).map Prod.snd) before.length value = some ((before ++ (key, value) :: after).map Prod.snd)
    rw [List.map_append, insertAt?_append (List.length_map _), List.map_append, List.map_cons]
  have count : ((Tree.leaf grown).node context.parentId).keys.length = (before ++ after).length + 1 := by
    change ((before ++ (key, value) :: after).map Prod.fst).length = _
    rw [List.length_map, List.length_append, List.length_append, List.length_cons]
    rfl
  rw [Strict.insertIntoLeaf]
  simp only [keys, values, checked_some]
  obtain ⟨least, most⟩ := Tree.leaf_shaped.mp good
  by_cases fits : ((Tree.leaf grown).node context.parentId).keys.length ≤ maxKeys
  · rw [if_pos fits]
    have goodGrown : (Tree.leaf grown).Shaped context.least := by
      refine Tree.leaf_shaped.mpr ⟨?_, ?_⟩
      · change _ ≤ (before ++ (key, value) :: after).length
        simp only [List.length_append, List.length_cons] at least ⊢
        omega
      · change (before ++ (key, value) :: after).length ≤ _
        rw [count] at fits
        simp only [List.length_append, List.length_cons] at fits ⊢
        omega
    refine holding.write ((Tree.leaf ⟨id, before ++ after, next⟩).node context.parentId) (context.nodes id) ?_ rfl
      (goodGrown.fits context.parentId) fun later wrote => ?_
    · change context.nodes id + ({(Tree.leaf ⟨id, before ++ after, next⟩).node context.parentId} + 0) = _
      abel
    have placed : Holding later (context.rootId (Tree.leaf grown).id)
        (context.nodes (Tree.leaf grown).id + (Tree.leaf grown).nodes context.parentId) base := by
      refine wrote.cast ?_
      change {(Tree.leaf grown).node context.parentId} + _ =
        context.nodes id + ({(Tree.leaf grown).node context.parentId} + 0)
      abel
    by_cases first : before = []
    · subst first
      rw [if_pos (by exact rfl)]
      refine (propagateMinimumChange_spec shaped goodGrown rfl rfl enough (by rw [Nat.zero_add]; exact enough) placed).seq ?_
      rintro _ final ⟨raised, raising, kept⟩
      exact ⟨rfl, raising.rooted goodGrown ordered kept⟩
    · rw [if_neg (by rwa [List.length_eq_zero_iff])]
      exact ⟨rfl, _, Rooted.of_context shaped goodGrown placed, ordered, rfl⟩
  · rw [if_neg fits]
    have full : (before ++ (key, value) :: after).length = 5 := by
      rw [count] at fits
      unfold maxKeys at fits most
      simp only [List.length_append, List.length_cons] at fits most ⊢
      omega
    exact splitLeaf_spec shaped full enough holding ordered

section Bounds

theorem leaves_weave {keys : List Key} {children : List (Tree height)} (sizes : children.length = keys.length + 1) :
    leaves (weave Token.sep Tree.word keys children) = children.flatMap fun child => leaves child.word := by
  induction keys generalizing children with
  | nil =>
    obtain ⟨only, rfl⟩ := List.length_eq_one_iff.mp sizes
    rw [weave_one, List.flatMap_singleton]
  | cons key keys ih =>
    cases children with
    | nil => cases sizes
    | cons child children => rw [weave, leaves_append, leaves_sep, ih (Nat.succ.inj sizes), List.flatMap_cons]

theorem Tree.Shaped.height_lt {tree : Tree height} {least : Nat} (shaped : tree.Shaped least)
    (branches : min height 1 ≤ least) : height < (leaves tree.word).length := by
  induction height generalizing least with
  | zero => exact Nat.one_pos
  | succ height ih =>
    obtain ⟨id, keys, children, rfl⟩ := tree.exists_inner
    obtain ⟨few, -, sizes, good⟩ := Tree.inner_shaped.mp shaped
    change _ < (leaves (weave Token.sep Tree.word keys children)).length
    rw [leaves_weave sizes]
    match children, good with
    | [], _ => cases sizes
    | [_], _ =>
      rw [List.length_singleton] at sizes
      omega
    | first :: second :: rest, good =>
      have one := ih (good first List.mem_cons_self) (by unfold maxKeys; omega)
      have two := ih (good second (List.mem_cons_of_mem _ List.mem_cons_self)) (by unfold maxKeys; omega)
      rw [List.flatMap_cons, List.flatMap_cons, List.length_append, List.length_append]
      omega

theorem Tree.Shaped.leaf_half {tree : Tree height} (shaped : tree.Shaped (maxKeys / 2)) {leaf : Leaf}
    (member : leaf ∈ leaves tree.word) : maxKeys / 2 ≤ leaf.entries.length := by
  induction height with
  | zero =>
    have same : leaf = tree := List.mem_singleton.mp member
    have least := shaped.1
    rw [← same] at least
    exact least
  | succ height ih =>
    obtain ⟨id, keys, children, rfl⟩ := tree.exists_inner
    obtain ⟨child, inside, found⟩ := leaf_of_weave member
    exact ih ((Tree.inner_shaped.mp shaped).2.2.2 child inside) found

theorem Tree.RootShaped.leaves_le {tree : Tree height} (shaped : tree.RootShaped) :
    (leaves tree.word).length ≤ (pairs tree.word).length + 1 := by
  cases height with
  | zero => exact Nat.le_add_left 1 _
  | succ height =>
    obtain ⟨id, keys, children, rfl⟩ := tree.exists_inner
    have full : ∀ leaf ∈ leaves (weave Token.sep Tree.word keys children), 1 ≤ leaf.entries.length := by
      intro leaf member
      obtain ⟨child, inside, found⟩ := leaf_of_weave member
      have half := ((Tree.inner_shaped.mp shaped).2.2.2 child inside).leaf_half found
      exact (by decide : 1 ≤ maxKeys / 2).trans half
    change (leaves (weave Token.sep Tree.word keys children)).length ≤ (pairs (weave Token.sep Tree.word keys children)).length + 1
    rw [pairs_eq, List.length_flatMap]
    have count := List.length_le_sum_of_one_le ((leaves (weave Token.sep Tree.word keys children)).map fun leaf =>
      leaf.entries.length) (by simpa using full)
    rw [List.length_map] at count
    omega

theorem Tree.RootShaped.height_le {tree : Tree height} (shaped : tree.RootShaped) :
    height < (pairs tree.word).length + 1 :=
  (Tree.Shaped.height_lt shaped le_rfl).trans_le shaped.leaves_le

theorem Located.depth_eq {tree : Tree height} {key : Key} {context : Context 0} {leaf : Leaf}
    (located : Located ⟨height, tree⟩ key context (.leaf leaf)) : context.depth = height := by
  have plugged := Context.plug_height context (.leaf leaf)
  rw [located.whole, Nat.zero_add] at plugged
  exact plugged.symm

end Bounds

/-- The tree of a store and the pairs it holds: none while there is no root. -/
inductive Represents (store : TreeStore) (base : Multiset (PageId × Cell)) : List (Key × Value) → Prop
  | empty (root : store.rootPageId = invalidPageId) (holds : Owns store.storage base) : Represents store base []
  | tree {word : List Token} (rooted : Rooted store base word) (ordered : Ordered word) :
      Represents store base (pairs word)

/-- What Insert leaves: the pairs as they were, or with the new one in its place. -/
def Inserted (base : Multiset (PageId × Cell)) (contents : List (Key × Value)) (key : Key) (value : Value)
    (inserted : Bool) (later : TreeStore) : Prop :=
  (inserted = false ∧ Represents later base contents ∧ assoc contents key ≠ none) ∨
  (inserted = true ∧ ∃ before after, contents = before ++ after ∧
    Represents later base (before ++ (key, value) :: after) ∧ (∀ pair ∈ before, pair.1 < key) ∧
      ∀ pair ∈ after, key < pair.1)

theorem insert_tree {tree : Tree height} (good : tree.RootShaped) (ordered : Ordered tree.word)
    (holding : Holding store tree.id (tree.nodes invalidPageId) base) (key : Key) (value : Value) {rounds : Nat}
    (enough : height < rounds) :
    Proceeds (Strict.insert rounds key value) (Inserted base (pairs tree.word) key value) store := by
  have real := holding.nonneg (tree.mem_nodes _)
  rw [Tree.node_pageId] at real
  rw [Strict.insert]
  refine holding.rootCall ?_
  rw [if_neg real]
  refine (findLeaf_spec good ordered enough holding).seq ?_
  rintro id later ⟨context, ⟨_, entries, next⟩, rfl, located, still⟩
  refine still.read located.mem_nodes rfl fun later again => ?_
  have word : tree.word = context.left ++ .leaf ⟨id, entries, next⟩ :: context.right := located.word
  have sorted : entries.Pairwise fun one two => one.1 < two.1 := located.leaf_sorted ordered
  change Proceeds (if (entries.map Prod.fst)[lowerBound (entries.map Prod.fst) key]? = some key then pure false
    else Strict.insertIntoLeaf rounds _ (lowerBound (entries.map Prod.fst) key) key value) _ later
  rcases lookup_leaf sorted key with
    ⟨before, old, after, split, index, found, small, large⟩ | ⟨before, after, split, index, missing, small, large⟩
  · rw [if_pos found]
    refine .inl ⟨rfl, .tree ⟨height, tree, good, rfl, again⟩ ordered, ?_⟩
    rw [located.assoc_eq]
    change assoc entries key ≠ none
    rw [(mem_iff_assoc sorted).mp (split ▸ List.mem_append.mpr (.inr List.mem_cons_self))]
    exact Option.some_ne_none old
  · rw [if_neg missing, ← index]
    subst split
    rw [located.nodes, located.root] at again
    rw [word] at ordered
    refine (insertIntoLeaf_spec located.shaped located.good (located.depth_eq.trans_lt enough) again
      (ordered.insert located.left small large located.right)).mono ?_
    rintro inserted final ⟨rfl, grown, rooted, grownOrdered, same⟩
    have represents := Represents.tree rooted grownOrdered
    rw [same, pairs_append, pairs_leaf] at represents
    refine .inr ⟨rfl, pairs context.left ++ before, after ++ pairs context.right, ?_, ?_, ?_, ?_⟩
    · rw [word, pairs_append, pairs_leaf]
      simp only [List.append_assoc]
    · simp only [List.append_assoc, List.cons_append] at represents ⊢
      exact represents
    · intro pair member
      exact (List.mem_append.mp member).elim (located.left_pairs pair) (small pair)
    · intro pair member
      exact (List.mem_append.mp member).elim (large pair) (located.right_pairs pair)

theorem insert_finds {contents : List (Key × Value)} (represents : Represents store base contents) (key : Key)
    (value : Value) {rounds : Nat} (enough : contents.length + 1 < rounds) :
    Proceeds (Strict.insert rounds key value) (Inserted base contents key value) store := by
  cases represents with
  | empty root holds =>
    have holding : Holding store invalidPageId 0 base := ⟨root, by rwa [Multiset.map_zero, zero_add]⟩
    rw [Strict.insert]
    refine holding.rootCall ?_
    rw [if_pos rfl]
    have good : ∀ id, (Tree.leaf ⟨id, [(key, value)], invalidPageId⟩).Shaped 0 :=
      fun id => Tree.leaf_shaped.mpr ⟨Nat.zero_le _, Nat.succ_pos 3⟩
    refine holding.create ((good invalidPageId).fits invalidPageId) fun rootId later made => ?_
    refine made.setRoot fun later named => ?_
    have rooted : Rooted later base [.leaf ⟨rootId, [(key, value)], invalidPageId⟩] :=
      ⟨0, ⟨rootId, [(key, value)], invalidPageId⟩, good rootId, rfl, named⟩
    have ordered : Ordered [.leaf ⟨rootId, [(key, value)], invalidPageId⟩] :=
      ⟨List.pairwise_singleton _ _, rfl, trivial⟩
    refine .inr ⟨rfl, [], [], rfl, .tree rooted ordered, ?_, ?_⟩ <;>
      exact fun pair impossible => absurd impossible List.not_mem_nil
  | @tree word rooted ordered =>
    obtain ⟨height, tree, good, rfl, holding⟩ := rooted
    have low := good.height_le
    exact insert_tree good ordered holding key value (by omega)

theorem insert_spec {contents : List (Key × Value)} (represents : Represents store base contents) (key : Key)
    (value : Value) {rounds : Nat} (enough : contents.length + 1 < rounds) :
    Proceeds (BPlusTree.insert rounds key value) (Inserted base contents key value) store :=
  ((insert_finds represents key value enough).plain (insert_finding rounds key value)).2

end QuorumDB.Storage
