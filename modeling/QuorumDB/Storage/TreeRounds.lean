import QuorumDB.Storage.BPlusTree

/-!
Rounds. The loops of the source have no bound; where a number of rounds is enough, more of them
change neither what a call of the tree does nor the accesses it makes.
-/

namespace QuorumDB.Storage
open Program PageProg

namespace BPlusTree

def Unfinished (error : StorageError) : Prop := error = .unfinished

/-- The first program is the second, stopped where its rounds are used up. -/
abbrev Prolongs {Result : Type} (short long : PageProg Result) : Prop := Asserts Unfinished short long

variable {rounds more depth deeper : Nat} {key : Key} {value : Value}

theorem unfinished_prolongs {Result : Type} (long : PageProg Result) : Prolongs (.fail .unfinished) long :=
  have unfinished : Unfinished .unfinished := rfl
  .stop unfinished long

theorem findLeafFrom_prolongs (le : rounds ≤ more) (current : PageId) :
    Prolongs (findLeafFrom key rounds current) (findLeafFrom key more current) := by
  induction rounds generalizing more current with
  | zero => exact unfinished_prolongs _
  | succ rounds ih =>
    obtain ⟨more, rfl⟩ := Nat.exists_eq_add_one.mpr (Nat.zero_lt_of_lt le)
    rw [findLeafFrom, findLeafFrom]
    refine .branch (.refl _) (.bind (.refl _) fun node => .branch (.refl _) (.bind (.refl _) fun child => ?_))
    exact ih (Nat.le_of_succ_le_succ le) child

theorem findLeaf_prolongs (le : rounds ≤ more) (key : Key) : Prolongs (findLeaf rounds key) (findLeaf more key) :=
  .bind (.refl _) fun root => findLeafFrom_prolongs le root

theorem search_prolongs (le : rounds ≤ more) (key : Key) : Prolongs (search rounds key) (search more key) :=
  .bind (.refl _) fun _ => .branch (.refl _) (.bind (findLeaf_prolongs le key) fun _ => .refl _)

theorem firstKeyFrom_prolongs (le : rounds ≤ more) (node : BPlusTreeNode) :
    Prolongs (firstKeyFrom rounds node) (firstKeyFrom more node) := by
  induction rounds generalizing more node with
  | zero => exact unfinished_prolongs _
  | succ rounds ih =>
    obtain ⟨more, rfl⟩ := Nat.exists_eq_add_one.mpr (Nat.zero_lt_of_lt le)
    rw [firstKeyFrom, firstKeyFrom]
    refine .branch (.refl _) (.bind (.refl _) fun child => .bind (.refl _) fun below => ?_)
    exact ih (Nat.le_of_succ_le_succ le) below

theorem firstKey_prolongs (le : rounds ≤ more) (pageId : PageId) : Prolongs (firstKey rounds pageId) (firstKey more pageId) :=
  .bind (.refl _) fun node => firstKeyFrom_prolongs le node

theorem propagateMinimumChange_prolongs (deep : depth ≤ deeper) (le : rounds ≤ more) (current : PageId) :
    Prolongs (propagateMinimumChange depth rounds current) (propagateMinimumChange deeper more current) := by
  induction rounds generalizing more current with
  | zero => exact unfinished_prolongs _
  | succ rounds ih =>
    obtain ⟨more, rfl⟩ := Nat.exists_eq_add_one.mpr (Nat.zero_lt_of_lt le)
    rw [propagateMinimumChange, propagateMinimumChange]
    refine .bind (.refl _) fun root => .branch (.refl _) (.bind (.refl _) fun node => .bind (.refl _) fun parent => ?_)
    refine .branch (.bind (firstKey_prolongs deep current) fun _ => .refl _) ?_
    exact ih (Nat.le_of_succ_le_succ le) _

theorem insertIntoParent_prolongs (le : rounds ≤ more) (left : BPlusTreeNode) (separator : Key) (right : BPlusTreeNode) :
    Prolongs (insertIntoParent rounds left separator right) (insertIntoParent more left separator right) := by
  induction rounds generalizing more left separator right with
  | zero => exact unfinished_prolongs _
  | succ rounds ih =>
    obtain ⟨more, rfl⟩ := Nat.exists_eq_add_one.mpr (Nat.zero_lt_of_lt le)
    rw [insertIntoParent, insertIntoParent]
    refine .branch (.refl _) (.bind (.refl _) fun parent => .bind (.refl _) fun keys => .bind (.refl _) fun children => ?_)
    refine .bind (.refl _) fun _ => .branch (.refl _) (.bind (.refl _) fun promoted => .bind (.refl _) fun newRightId => ?_)
    exact .bind (.refl _) fun _ => .bind (.refl _) fun _ => ih (Nat.le_of_succ_le_succ le) _ _ _

theorem splitLeaf_prolongs (le : rounds ≤ more) (leaf : BPlusTreeNode) : Prolongs (splitLeaf rounds leaf) (splitLeaf more leaf) := by
  refine .bind (.refl _) fun rightId => .bind (.refl _) fun _ => .bind (.refl _) fun first => ?_
  exact .bind (insertIntoParent_prolongs le _ first _) fun _ => .refl _

theorem insertIntoLeaf_prolongs (le : rounds ≤ more) (leaf : BPlusTreeNode) (index : Nat) (key : Key) (value : Value) :
    Prolongs (insertIntoLeaf rounds leaf index key value) (insertIntoLeaf more leaf index key value) := by
  refine .bind (.refl _) fun keys => .bind (.refl _) fun values => .branch (.bind (.refl _) fun _ => ?_) (splitLeaf_prolongs le _)
  exact .branch (.bind (propagateMinimumChange_prolongs le le _) fun _ => .refl _) (.refl _)

theorem insert_prolongs (le : rounds ≤ more) (key : Key) (value : Value) :
    Prolongs (insert rounds key value) (insert more key value) := by
  refine .bind (.refl _) fun root => .branch (.refl _) (.bind (findLeaf_prolongs le key) fun leafId => ?_)
  exact .bind (.refl _) fun leaf => .branch (.refl _) (insertIntoLeaf_prolongs le leaf _ key value)

theorem handleInternalUnderflow_prolongs (le : rounds ≤ more) (pageId : PageId) :
    Prolongs (handleInternalUnderflow rounds pageId) (handleInternalUnderflow more pageId) := by
  induction rounds generalizing more pageId with
  | zero => exact unfinished_prolongs _
  | succ rounds ih =>
    obtain ⟨more, rfl⟩ := Nat.exists_eq_add_one.mpr (Nat.zero_lt_of_lt le)
    rw [handleInternalUnderflow, handleInternalUnderflow]
    refine .bind (.refl _) fun node => .bind (.refl _) fun root => .branch (.refl _) (.branch (.refl _) ?_)
    refine .bind (.refl _) fun parent => .bind (.refl _) fun fromLeft => .branch (.refl _) ?_
    refine .bind (.refl _) fun fromRight => .branch (.refl _) ?_
    exact .bind (.refl _) fun _ => ih (Nat.le_of_succ_le_succ le) _

theorem handleLeafUnderflow_prolongs (le : rounds ≤ more) (leaf : BPlusTreeNode) :
    Prolongs (handleLeafUnderflow rounds leaf) (handleLeafUnderflow more leaf) := by
  refine .bind (.refl _) fun parent => .bind (.refl _) fun fromLeft => .branch (.refl _) ?_
  refine .bind (.refl _) fun fromRight => .branch (.refl _) ?_
  exact .bind (.refl _) fun _ => handleInternalUnderflow_prolongs le _

theorem deleteFromLeaf_prolongs (le : rounds ≤ more) (leaf : BPlusTreeNode) (index : Nat) :
    Prolongs (deleteFromLeaf rounds leaf index) (deleteFromLeaf more leaf index) := by
  refine .bind (.refl _) fun keys => .bind (.refl _) fun values => .bind (.refl _) fun root => .branch ?_ ?_
  · refine .bind (.refl _) fun _ => ?_
    exact .branch (.bind (propagateMinimumChange_prolongs le le _) fun _ => .refl _) (.refl _)
  · exact .bind (handleLeafUnderflow_prolongs le _) fun _ => .refl _

theorem delete_prolongs (le : rounds ≤ more) (key : Key) : Prolongs (delete rounds key) (delete more key) := by
  refine .bind (.refl _) fun root => .branch (.refl _) (.bind (findLeaf_prolongs le key) fun leafId => .bind (.refl _) fun leaf => ?_)
  exact .branch (deleteFromLeaf_prolongs le leaf _) (.refl _)

end BPlusTree

end QuorumDB.Storage
