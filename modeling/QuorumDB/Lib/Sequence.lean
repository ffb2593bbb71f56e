import Mathlib.Data.List.TakeWhile
import Mathlib.Order.Lattice

/-!
Vectors as lists: the element operations that are undefined outside the vector
return `none` there, and the searches of a sorted vector count its leading elements.
-/

namespace QuorumDB.Sequence

variable {Item : Type}

def insertAt? (items : List Item) (index : Nat) (item : Item) : Option (List Item) :=
  if index ≤ items.length then some (items.insertIdx index item) else none

def eraseAt? (items : List Item) (index : Nat) : Option (List Item) :=
  if index < items.length then some (items.eraseIdx index) else none

def setAt? (items : List Item) (index : Nat) (item : Item) : Option (List Item) :=
  if index < items.length then some (items.set index item) else none

def popBack? (items : List Item) : Option (List Item) :=
  if items = [] then none else some items.dropLast

/-- `std::find`, the length standing for the end. -/
def position [DecidableEq Item] (items : List Item) (item : Item) : Nat :=
  (items.takeWhile (· ≠ item)).length

def lowerBound [LT Item] [DecidableLT Item] (items : List Item) (item : Item) : Nat :=
  (items.takeWhile (· < item)).length

def upperBound [LE Item] [DecidableLE Item] (items : List Item) (item : Item) : Nat :=
  (items.takeWhile (· ≤ item)).length

section Split

variable {before after : List Item} {item other : Item} {index : Nat}

theorem insertAt?_append (here : before.length = index) :
    insertAt? (before ++ after) index item = some (before ++ item :: after) := by
  subst here
  rw [insertAt?, if_pos (by rw [List.length_append]; omega)]
  congr 1
  induction before with
  | nil => rfl
  | cons first before ih => rw [List.cons_append, List.length_cons, List.insertIdx_succ_cons, ih, List.cons_append]

theorem insertAt?_length {items grown : List Item} (inserted : insertAt? items index item = some grown) :
    grown.length = items.length + 1 := by
  unfold insertAt? at inserted
  by_cases inside : index ≤ items.length
  · rw [if_pos inside] at inserted
    rw [← Option.some.inj inserted, List.length_insertIdx_of_le_length inside]
  · rw [if_neg inside] at inserted
    cases inserted

theorem eraseAt?_append (here : before.length = index) :
    eraseAt? (before ++ item :: after) index = some (before ++ after) := by
  subst here
  rw [eraseAt?, if_pos (by rw [List.length_append, List.length_cons]; omega),
    List.eraseIdx_append_of_length_le (Nat.le_refl _), Nat.sub_self, List.eraseIdx_zero, List.tail_cons]

theorem eraseAt?_cons : eraseAt? (item :: after) 0 = some after := rfl

theorem setAt?_append (here : before.length = index) :
    setAt? (before ++ other :: after) index item = some (before ++ item :: after) := by
  subst here
  rw [setAt?, if_pos (by rw [List.length_append, List.length_cons]; omega),
    List.set_append_right _ _ (Nat.le_refl _), Nat.sub_self, List.set_cons_zero]

theorem getElem?_middle (here : before.length = index) : (before ++ item :: after)[index]? = some item := by
  subst here
  rw [List.getElem?_append_right (Nat.le_refl _), Nat.sub_self, List.getElem?_cons_zero]

theorem drop_middle (here : before.length = index) : (before ++ item :: after).drop (index + 1) = after := by
  rw [← List.singleton_append, ← List.append_assoc]
  apply List.drop_left'
  rw [List.length_append, here, List.length_singleton]

theorem popBack?_append : popBack? (before ++ [item]) = some before := by
  rw [popBack?, if_neg (by simp), List.dropLast_concat]

theorem position_append [DecidableEq Item] (fresh : item ∉ before) :
    position (before ++ item :: after) item = before.length := by
  have all : ∀ found ∈ before, decide (found ≠ item) = true := by
    intro found member
    simp only [decide_eq_true_eq]
    exact fun same => fresh (same ▸ member)
  rw [position, List.takeWhile_append_of_pos all, List.takeWhile_cons_of_neg (by simp), List.append_nil]

end Split

theorem split_takeWhile (items : List Item) (leads : Item → Bool) :
    ∃ before after, items = before ++ after ∧ before.length = (items.takeWhile leads).length ∧
      (∀ item ∈ before, leads item = true) ∧ ∀ item, after.head? = some item → leads item = false := by
  refine ⟨items.takeWhile leads, items.dropWhile leads, List.takeWhile_append_dropWhile.symm, rfl,
    fun item member => List.mem_takeWhile_imp member, fun item first => ?_⟩
  have stop := List.head?_dropWhile_not leads items
  rw [first] at stop
  simpa using stop

end QuorumDB.Sequence
