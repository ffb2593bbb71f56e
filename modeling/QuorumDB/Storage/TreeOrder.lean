import QuorumDB.Storage.TreeWord

/-!
The changes the operations make to the word of a tree, each keeping it in order: an
entry put in or taken out, a leaf cut in two, two leaves joined, an entry moved to a
neighbour, a separator raised.
-/

namespace QuorumDB.Storage
open SearchWord

def entryMarks (entries : List (Key × Value)) : List (Mark Key Value) :=
  entries.map fun pair => .entry pair.1 pair.2

theorem entryMarks_append (before after : List (Key × Value)) :
    entryMarks (before ++ after) = entryMarks before ++ entryMarks after := List.map_append

theorem entryMarks_cons (first : Key × Value) (rest : List (Key × Value)) :
    entryMarks (first :: rest) = .entry first.1 first.2 :: entryMarks rest := rfl

theorem marks_block (leaf : Leaf) (word : List Token) :
    marks (.leaf leaf :: word) = entryMarks leaf.entries ++ marks word := marks_leaf leaf word

variable {left right : List Token} {id next other : PageId} {before after : List (Key × Value)} {key : Key} {value : Value}

namespace Ordered

theorem chained_entries (chained : Chained invalidPageId (links (left ++ .leaf ⟨id, before, next⟩ :: right))) :
    Chained invalidPageId (links (left ++ .leaf ⟨id, after, next⟩ :: right)) := by
  simpa only [links_append, links_leaf] using chained

theorem insert (ordered : Ordered (left ++ .leaf ⟨id, before ++ after, next⟩ :: right))
    (leftBelow : ∀ mark ∈ marks left, mark.Below key) (below : ∀ pair ∈ before, pair.1 < key)
    (above : ∀ pair ∈ after, key < pair.1) (rightAbove : ∀ mark ∈ marks right, mark.Above key) :
    Ordered (left ++ .leaf ⟨id, before ++ (key, value) :: after, next⟩ :: right) := by
  refine ⟨?_, chained_entries ordered.chained⟩
  have sorted := ordered.sorted
  rw [marks_append, marks_block, entryMarks_append, List.append_assoc, ← List.append_assoc] at sorted
  rw [marks_append, marks_block, entryMarks_append, entryMarks_cons, List.append_assoc, ← List.append_assoc,
    List.cons_append]
  refine sorted.insert (fun mark member => ?_) fun mark member => ?_
  · rcases List.mem_append.mp member with outer | inner
    · exact leftBelow mark outer
    · obtain ⟨pair, inside, rfl⟩ := List.mem_map.mp inner
      exact below pair inside
  · rcases List.mem_append.mp member with inner | outer
    · obtain ⟨pair, inside, rfl⟩ := List.mem_map.mp inner
      exact above pair inside
    · exact rightAbove mark outer

theorem erase (ordered : Ordered (left ++ .leaf ⟨id, before ++ (key, value) :: after, next⟩ :: right)) :
    Ordered (left ++ .leaf ⟨id, before ++ after, next⟩ :: right) := by
  refine ⟨ordered.sorted.sublist ?_, chained_entries ordered.chained⟩
  simp only [marks_append, marks_block, entryMarks_append, entryMarks_cons]
  exact (((List.Sublist.refl _).append (List.sublist_cons_self _ _)).append_right _).append_left _

theorem raise {old : Key} (ordered : Ordered (left ++ .sep old :: .leaf ⟨id, (key, value) :: after, next⟩ :: right)) :
    Ordered (left ++ .sep key :: .leaf ⟨id, (key, value) :: after, next⟩ :: right) := by
  refine ⟨?_, by simpa only [links_append, links_sep] using ordered.chained⟩
  have sorted := ordered.sorted
  rw [marks_append, marks_sep, marks_block, entryMarks_cons, List.cons_append] at sorted ⊢
  exact sorted.raise

theorem cut {last : Key × Value} (fresh : PageId)
    (ordered : Ordered (left ++ .leaf ⟨id, (before ++ [last]) ++ (key, value) :: after, next⟩ :: right)) :
    Ordered (left ++ .leaf ⟨id, before ++ [last], fresh⟩ :: .sep key :: .leaf ⟨fresh, (key, value) :: after, next⟩ ::
      right) := by
  refine ⟨?_, ?_⟩
  · have sorted := ordered.sorted
    simp only [marks_append, marks_block, marks_sep, entryMarks_append, entryMarks_cons, List.append_assoc,
      List.cons_append] at sorted ⊢
    rw [← List.append_assoc] at sorted ⊢
    exact sorted.divide
  · have chained := ordered.chained
    simp only [links_append, links_leaf, links_sep, chained_append, Chained, chainHead] at chained ⊢
    exact ⟨chained.1, trivial, chained.2⟩

theorem join {separator : Key} (ordered : Ordered (left ++ .leaf ⟨id, before, other⟩ :: .sep separator ::
      .leaf ⟨other, after, next⟩ :: right)) :
    Ordered (left ++ .leaf ⟨id, before ++ after, next⟩ :: right) := by
  refine ⟨ordered.sorted.sublist ?_, ?_⟩
  · simp only [marks_append, marks_block, marks_sep, entryMarks_append, List.append_assoc]
    exact (((List.sublist_cons_self _ _).append_left _).append_left _)
  · have chained := ordered.chained
    simp only [links_append, links_leaf, links_sep, chained_append, Chained, chainHead] at chained ⊢
    exact ⟨chained.1, chained.2.2⟩

theorem neighbours {separator : Key} {rightId : PageId} (ordered : Ordered (left ++ .leaf ⟨id, before, other⟩ ::
    .sep separator :: .leaf ⟨rightId, after, next⟩ :: right)) : other = rightId := by
  have chained := ordered.chained
  simp only [links_append, links_leaf, links_sep, chained_append, Chained, chainHead] at chained
  exact chained.2.1

theorem shift {separator : Key} {first second : List (Key × Value)} {last : Key × Value}
    (ordered : Ordered (left ++ .leaf ⟨id, first, other⟩ :: .sep separator :: .leaf ⟨other, second, next⟩ :: right))
    (same : first ++ second = (before ++ [last]) ++ (key, value) :: after) :
    Ordered (left ++ .leaf ⟨id, before ++ [last], other⟩ :: .sep key :: .leaf ⟨other, (key, value) :: after, next⟩ ::
      right) := by
  have whole := ordered.join
  rw [same] at whole
  exact whole.cut other

end Ordered

end QuorumDB.Storage
