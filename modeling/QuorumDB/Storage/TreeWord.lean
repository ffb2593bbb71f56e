import QuorumDB.Lib.SearchWord
import QuorumDB.Lib.Sequence
import QuorumDB.Storage.TreeShape

/-!
The word of a tree as marks and as a chain of leaves, and where a key belongs in it:
the descent by `upper_bound` keeps everything left of the subtree below the key and
everything right of it above.
-/

namespace QuorumDB.Storage
open SearchWord Interleave Sequence

namespace Token

def marks : Token → List (Mark Key Value)
  | .leaf block => block.entries.map fun pair => .entry pair.1 pair.2
  | .sep key => [.sep key]

/-- The page of a leaf and the page its `next_leaf` names. -/
def link : Token → Option (PageId × PageId)
  | .leaf block => some (block.id, block.next)
  | .sep _ => none

end Token

def marks (word : List Token) : List (Mark Key Value) := word.flatMap Token.marks

def links (word : List Token) : List (PageId × PageId) := word.filterMap Token.link

def pairs (word : List Token) : List (Key × Value) := entries (marks word)

@[simp] theorem marks_append (before after : List Token) : marks (before ++ after) = marks before ++ marks after :=
  List.flatMap_append

@[simp] theorem marks_sep (key : Key) (word : List Token) : marks (.sep key :: word) = .sep key :: marks word := rfl

@[simp] theorem marks_leaf (leaf : Leaf) (word : List Token) :
    marks (.leaf leaf :: word) = leaf.entries.map (fun pair => .entry pair.1 pair.2) ++ marks word := rfl

@[simp] theorem marks_nil : marks [] = [] := rfl

@[simp] theorem links_append (before after : List Token) : links (before ++ after) = links before ++ links after :=
  List.filterMap_append

@[simp] theorem links_sep (key : Key) (word : List Token) : links (.sep key :: word) = links word := rfl

@[simp] theorem links_leaf (leaf : Leaf) (word : List Token) :
    links (.leaf leaf :: word) = (leaf.id, leaf.next) :: links word := rfl

@[simp] theorem links_nil : links [] = [] := rfl

theorem entries_leaf (entries : List (Key × Value)) :
    SearchWord.entries (entries.map fun pair => Mark.entry pair.1 pair.2) = entries := by
  induction entries with
  | nil => rfl
  | cons first rest ih => rw [List.map_cons, SearchWord.entries_entry, ih]

@[simp] theorem pairs_append (before after : List Token) : pairs (before ++ after) = pairs before ++ pairs after := by
  rw [pairs, marks_append, entries_append]
  rfl

@[simp] theorem pairs_sep (key : Key) (word : List Token) : pairs (.sep key :: word) = pairs word := rfl

@[simp] theorem pairs_leaf (leaf : Leaf) (word : List Token) : pairs (.leaf leaf :: word) = leaf.entries ++ pairs word := by
  rw [pairs, marks_leaf, entries_append, entries_leaf]
  rfl

@[simp] theorem pairs_nil : pairs [] = [] := rfl

def chainHead (last : PageId) : List (PageId × PageId) → PageId
  | [] => last
  | link :: _ => link.1

def Chained (last : PageId) : List (PageId × PageId) → Prop
  | [] => True
  | link :: rest => link.2 = chainHead last rest ∧ Chained last rest

@[simp] theorem chainHead_append (last : PageId) (before after : List (PageId × PageId)) :
    chainHead last (before ++ after) = chainHead (chainHead last after) before := by
  cases before <;> rfl

@[simp] theorem chained_append (last : PageId) (before after : List (PageId × PageId)) :
    Chained last (before ++ after) ↔ Chained (chainHead last after) before ∧ Chained last after := by
  induction before with
  | nil => simp [Chained]
  | cons link before ih => rw [List.cons_append, Chained, Chained, ih, chainHead_append, and_assoc]

/-- The word of a tree in order: keys where searches expect them, leaves chained. -/
structure Ordered (word : List Token) : Prop where
  sorted : Sorted (marks word)
  chained : Chained invalidPageId (links word)

theorem Ordered.pairs {word : List Token} (ordered : Ordered word) :
    (Storage.pairs word).Pairwise fun one two => one.1 < two.1 := ordered.sorted.entries

/-- A subtree of the whole tree in which the key belongs. -/
structure Located (whole : (total : Nat) × Tree total) (key : Key) {height : Nat} (context : Context height)
    (tree : Tree height) : Prop where
  whole : context.plug tree = whole
  shaped : context.Shaped
  good : tree.Shaped context.least
  left : ∀ mark ∈ marks context.left, mark.Below key
  right : ∀ mark ∈ marks context.right, mark.Above key

theorem located_root {height : Nat} {tree : Tree height} (good : tree.RootShaped) (key : Key) :
    Located ⟨height, tree⟩ key .top tree :=
  ⟨rfl, trivial, good, fun _ impossible => absurd impossible List.not_mem_nil,
    fun _ impossible => absurd impossible List.not_mem_nil⟩

namespace Located

variable {whole : (total : Nat) × Tree total} {key : Key} {height : Nat} {context : Context height} {tree : Tree height}

theorem word (located : Located whole key context tree) :
    whole.2.word = context.left ++ (tree.word ++ context.right) := by
  rw [← located.whole, Context.plug_word located.shaped]

theorem nodes (located : Located whole key context tree) :
    whole.2.nodes invalidPageId = context.nodes tree.id + tree.nodes context.parentId := by
  rw [← located.whole, Context.plug_nodes]

theorem root (located : Located whole key context tree) : whole.2.id = context.rootId tree.id := by
  rw [← located.whole, Context.plug_id]

theorem sorted (located : Located whole key context tree) (ordered : Ordered whole.2.word) :
    Sorted (marks tree.word) := by
  have sorted := ordered.sorted
  rw [located.word, marks_append, marks_append] at sorted
  exact sorted.split.2.1.split.1

end Located

theorem left_below {height : Nat} {keys : List Key} {children : List (Tree height)} {key : Key}
    (sizes : keys.length = children.length) (sorted : Sorted (marks (weaveLeft Token.sep Tree.word keys children)))
    (small : ∀ sep ∈ keys, sep ≤ key) :
    ∀ mark ∈ marks (weaveLeft Token.sep Tree.word keys children), mark.Below key := by
  rcases List.eq_nil_or_concat keys with rfl | ⟨earlier, last, rfl⟩
  · intro mark member
    rw [weaveLeft_nil] at member
    exact absurd member List.not_mem_nil
  · rcases List.eq_nil_or_concat children with rfl | ⟨before, child, rfl⟩
    · simp at sizes
    · have same : earlier.length = before.length := by simpa using sizes
      rw [List.concat_eq_append, List.concat_eq_append] at sorted ⊢
      rw [weaveLeft_concat same, marks_append] at sorted ⊢
      have le : last ≤ key := small last (by simp)
      intro mark member
      rcases List.mem_append.mp member with inner | final
      · exact (sorted.split.2.2 mark inner (.sep last) (by simp)).below_sep le
      · rw [marks_sep, marks_nil, List.mem_singleton] at final
        rw [final]
        exact le

theorem right_above {height : Nat} {keys : List Key} {children : List (Tree height)} {key : Key}
    (sorted : Sorted (marks (weaveRight Token.sep Tree.word keys children)))
    (large : ∀ sep, keys.head? = some sep → key < sep) :
    ∀ mark ∈ marks (weaveRight Token.sep Tree.word keys children), mark.Above key := by
  cases keys with
  | nil =>
    intro mark member
    rw [weaveRight_nil] at member
    exact absurd member List.not_mem_nil
  | cons first keys =>
    cases children with
    | nil => exact fun mark member => absurd member List.not_mem_nil
    | cons child children =>
      have less : key < first := large first rfl
      rw [weaveRight, List.cons_append, marks_sep] at sorted ⊢
      intro mark member
      rcases List.mem_cons.mp member with rfl | behind
      · exact less
      · exact ((List.pairwise_cons.mp sorted).1 mark behind).above_sep less

theorem Located.descend {whole : (total : Nat) × Tree total} {key : Key} {height : Nat}
    {context : Context (height + 1)} {tree : Tree (height + 1)} (located : Located whole key context tree)
    (ordered : Ordered whole.2.word) {parent : PageId} :
    ∃ gap child, gap.fill child = tree ∧ Located whole key (.under gap context) child ∧
      (tree.node parent).children[upperBound (tree.node parent).keys key]? = some child.id := by
  obtain ⟨id, keys, children, rfl⟩ := tree.exists_inner
  obtain ⟨least, most, sizes, good⟩ := Tree.inner_shaped.mp located.good
  obtain ⟨before, after, rfl, count, small, large⟩ := split_takeWhile keys fun sep => decide (sep ≤ key)
  have inside : before.length < children.length := by
    rw [sizes, List.length_append]
    omega
  obtain ⟨left, child, right, rfl, here⟩ : ∃ left child right, children = left ++ child :: right ∧
      left.length = before.length :=
    ⟨children.take before.length, children[before.length], children.drop (before.length + 1),
      by rw [List.getElem_cons_drop, List.take_append_drop], by rw [List.length_take]; omega⟩
  have shaped : (⟨id, before, left, after, right⟩ : Gap (Tree height)).Shaped context.least := by
    simp only [List.length_append, List.length_cons] at sizes least most
    have rest : after.length = right.length := by omega
    refine ⟨here.symm, rest, least, most, fun other member => ?_, fun other member => ?_⟩
    · exact good other (List.mem_append.mpr (.inl member))
    · exact good other (List.mem_append.mpr (.inr (List.mem_cons_of_mem _ member)))
  have sorted : Sorted (marks (Gap.fill ⟨id, before, left, after, right⟩ child).word) := located.sorted ordered
  rw [Gap.fill_word shaped, marks_append, marks_append] at sorted
  refine ⟨⟨id, before, left, after, right⟩, child, rfl, ⟨located.whole, ⟨shaped, located.shaped⟩, ?_, ?_, ?_⟩, ?_⟩
  · exact good child (List.mem_append.mpr (.inr List.mem_cons_self))
  · intro mark member
    rw [Context.left, marks_append] at member
    rcases List.mem_append.mp member with outer | inner
    · exact located.left mark outer
    · exact left_below here.symm sorted.split.1 (fun sep member => by simpa using small sep member) mark inner
  · intro mark member
    rw [Context.right, marks_append] at member
    rcases List.mem_append.mp member with inner | outer
    · exact right_above sorted.split.2.1.split.2.1 (fun sep first => by simpa using large sep first) mark inner
    · exact located.right mark outer
  · have position : upperBound (before ++ after) key = left.length := by
      rw [here, count]
      rfl
    change (List.map Tree.id (left ++ child :: right))[upperBound (before ++ after) key]? = some child.id
    rw [List.getElem?_map, getElem?_middle position.symm]
    rfl

theorem lowerBound_split {entries : List (Key × Value)} (sorted : entries.Pairwise fun one two => one.1 < two.1)
    (key : Key) : ∃ before after, entries = before ++ after ∧
      before.length = lowerBound (entries.map Prod.fst) key ∧ (∀ pair ∈ before, pair.1 < key) ∧
      ((∃ value rest, after = (key, value) :: rest ∧ ∀ pair ∈ rest, key < pair.1) ∨ ∀ pair ∈ after, key < pair.1) := by
  obtain ⟨before, after, rfl, count, small, large⟩ := split_takeWhile entries fun pair => decide (pair.1 < key)
  refine ⟨before, after, rfl, ?_, fun pair member => by simpa using small pair member, ?_⟩
  · rw [lowerBound, List.takeWhile_map, List.length_map, count]
    rfl
  · cases after with
    | nil => exact .inr fun pair impossible => absurd impossible List.not_mem_nil
    | cons first rest =>
      obtain ⟨head, -⟩ := List.pairwise_cons.mp (List.pairwise_append.mp sorted).2.1
      have le : key ≤ first.1 := by simpa using large first rfl
      rcases le.eq_or_lt with same | less
      · exact .inl ⟨first.2, rest, by rw [same], fun pair member => same ▸ head pair member⟩
      · refine .inr fun pair member => ?_
        rcases List.mem_cons.mp member with rfl | behind
        · exact less
        · exact less.trans (head pair behind)

end QuorumDB.Storage
