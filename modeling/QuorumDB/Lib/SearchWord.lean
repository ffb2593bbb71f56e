import Mathlib.Order.Lattice
import Mathlib.Data.List.Pairwise
import Mathlib.Logic.Function.Basic
import Mathlib.Tactic.Order

/-!
The in-order word of a search tree that keeps its entries in the leaves: entries, and
separators between them. A separator stands before the entry with its own key. A word
is sorted when that order is strict all along it; the steps a tree takes are insertions
and removals of marks that keep it sorted. The entries of a sorted word are a map.
-/

namespace QuorumDB.SearchWord

inductive Mark (Key Value : Type) where
  | sep (key : Key)
  | entry (key : Key) (value : Value)

variable {Key Value : Type}

def entries (word : List (Mark Key Value)) : List (Key × Value) :=
  word.filterMap fun
    | .sep _ => none
    | .entry key value => some (key, value)

theorem entries_append (before after : List (Mark Key Value)) : entries (before ++ after) = entries before ++ entries after :=
  List.filterMap_append

@[simp] theorem entries_sep (key : Key) (after : List (Mark Key Value)) : entries (.sep key :: after) = entries after := rfl

@[simp] theorem entries_entry (key : Key) (value : Value) (after : List (Mark Key Value)) :
    entries (.entry key value :: after) = (key, value) :: entries after := rfl

theorem mem_entries {word : List (Mark Key Value)} {pair : Key × Value} :
    pair ∈ entries word ↔ Mark.entry pair.1 pair.2 ∈ word := by
  unfold entries
  rw [List.mem_filterMap]
  constructor
  · rintro ⟨mark, member, same⟩
    cases mark with
    | sep key => cases same
    | entry key value =>
      cases same
      exact member
  · exact fun member => ⟨_, member, rfl⟩

variable [LinearOrder Key]

namespace Mark

def Lt : Mark Key Value → Mark Key Value → Prop
  | .sep first, .sep second => first < second
  | .sep first, .entry second _ => first ≤ second
  | .entry first _, .sep second => first < second
  | .entry first _, .entry second _ => first < second

/-- The mark goes before an entry with this key. -/
def Below (key : Key) : Mark Key Value → Prop
  | .sep other => other ≤ key
  | .entry other _ => other < key

/-- The mark goes after an entry with this key. -/
def Above (key : Key) : Mark Key Value → Prop
  | .sep other => key < other
  | .entry other _ => key < other

variable {first second third : Mark Key Value} {key other : Key} {value : Value}

theorem Below.lt (below : first.Below key) : first.Lt (.entry key value) := by
  cases first <;> exact below

theorem Above.lt (above : first.Above key) : (Mark.entry key value).Lt first := by
  cases first <;> exact above

theorem Lt.below_sep (lt : first.Lt (.sep other)) (le : other ≤ key) : first.Below key := by
  cases first <;> simp only [Lt, Below] at lt ⊢ <;> order

theorem Lt.above_sep (lt : (Mark.sep other : Mark Key Value).Lt first) (less : key < other) : first.Above key := by
  cases first <;> simp only [Lt, Above] at lt ⊢ <;> order

theorem Lt.sep_of_entry (lt : first.Lt (.entry key value)) (less : key < other) : first.Lt (.sep other) := by
  cases first <;> simp only [Lt] at lt ⊢ <;> order

theorem Lt.sep_mono (lt : first.Lt (.sep key)) (le : key ≤ other) : first.Lt (.sep other) := by
  cases first <;> simp only [Lt] at lt ⊢ <;> order

theorem Lt.entry_sep (lt : (Mark.entry key value).Lt first) : (Mark.sep key).Lt first := by
  cases first <;> simp only [Lt] at lt ⊢ <;> order

end Mark

def Sorted (word : List (Mark Key Value)) : Prop := word.Pairwise Mark.Lt

section Steps

variable {before after word shorter : List (Mark Key Value)} {key other : Key} {value next : Value}

theorem Sorted.sublist (sorted : Sorted word) (part : shorter.Sublist word) : Sorted shorter :=
  List.Pairwise.sublist part sorted

theorem Sorted.split (sorted : Sorted (before ++ after)) :
    Sorted before ∧ Sorted after ∧ ∀ one ∈ before, ∀ two ∈ after, one.Lt two :=
  List.pairwise_append.mp sorted

theorem Sorted.insert (sorted : Sorted (before ++ after)) (below : ∀ mark ∈ before, mark.Below key)
    (above : ∀ mark ∈ after, mark.Above key) : Sorted (before ++ .entry key value :: after) := by
  obtain ⟨left, right, across⟩ := sorted.split
  refine List.pairwise_append.mpr ⟨left, List.pairwise_cons.mpr ⟨fun mark member => (above mark member).lt, right⟩, ?_⟩
  intro one inLeft two inRight
  rcases List.mem_cons.mp inRight with rfl | inRight
  · exact (below one inLeft).lt
  · exact across one inLeft two inRight

theorem Sorted.divide (sorted : Sorted (before ++ .entry other next :: .entry key value :: after)) :
    Sorted (before ++ .entry other next :: .sep key :: .entry key value :: after) := by
  obtain ⟨left, right, across⟩ := sorted.split
  obtain ⟨head, rest⟩ := List.pairwise_cons.mp right
  obtain ⟨last, tail⟩ := List.pairwise_cons.mp rest
  have less : other < key := head _ List.mem_cons_self
  refine List.pairwise_append.mpr ⟨left, List.pairwise_cons.mpr ⟨?_, List.pairwise_cons.mpr ⟨?_, rest⟩⟩, ?_⟩
  · intro mark member
    rcases List.mem_cons.mp member with rfl | member
    · exact less
    · exact head mark member
  · intro mark member
    rcases List.mem_cons.mp member with rfl | member
    · exact le_refl key
    · exact (last mark member).entry_sep
  · intro one inLeft two inRight
    rcases List.mem_cons.mp inRight with rfl | inRight
    · exact across one inLeft _ List.mem_cons_self
    · rcases List.mem_cons.mp inRight with rfl | inRight
      · exact (across one inLeft _ List.mem_cons_self).sep_of_entry less
      · exact across one inLeft two (List.mem_cons_of_mem _ inRight)

theorem Sorted.raise (sorted : Sorted (before ++ .sep other :: .entry key value :: after)) :
    Sorted (before ++ .sep key :: .entry key value :: after) := by
  obtain ⟨left, right, across⟩ := sorted.split
  obtain ⟨head, rest⟩ := List.pairwise_cons.mp right
  obtain ⟨last, -⟩ := List.pairwise_cons.mp rest
  have le : other ≤ key := head _ List.mem_cons_self
  refine List.pairwise_append.mpr ⟨left, List.pairwise_cons.mpr ⟨?_, rest⟩, ?_⟩
  · intro mark member
    rcases List.mem_cons.mp member with rfl | member
    · exact le_refl key
    · exact (last mark member).entry_sep
  · intro one inLeft two inRight
    rcases List.mem_cons.mp inRight with rfl | inRight
    · exact (across one inLeft _ List.mem_cons_self).sep_mono le
    · exact across one inLeft two (List.mem_cons_of_mem _ inRight)

end Steps

theorem Sorted.entries {word : List (Mark Key Value)} (sorted : Sorted word) :
    (SearchWord.entries word).Pairwise fun one two => one.1 < two.1 := by
  induction word with
  | nil => exact List.Pairwise.nil
  | cons mark word ih =>
    obtain ⟨head, rest⟩ := List.pairwise_cons.mp sorted
    cases mark with
    | sep key => exact ih rest
    | entry key value => exact List.pairwise_cons.mpr ⟨fun pair member => head _ (mem_entries.mp member), ih rest⟩

def assoc (pairs : List (Key × Value)) (key : Key) : Option Value :=
  (pairs.find? fun pair => pair.1 = key).map Prod.snd

section Assoc

variable {pairs before after : List (Key × Value)} {key : Key} {value : Value}

theorem mem_iff_assoc (sorted : pairs.Pairwise fun one two => one.1 < two.1) :
    (key, value) ∈ pairs ↔ assoc pairs key = some value := by
  unfold assoc
  induction pairs with
  | nil => simp
  | cons first pairs ih =>
    obtain ⟨head, rest⟩ := List.pairwise_cons.mp sorted
    by_cases here : first.1 = key
    · rw [List.find?_cons_of_pos (by simpa using here), List.mem_cons, Option.map_some, Option.some.injEq]
      constructor
      · rintro (same | member)
        · rw [← same]
        · exact absurd (head _ member) (by simp [here])
      · intro same
        exact .inl (Prod.ext here.symm same.symm)
    · rw [List.find?_cons_of_neg (by simpa using here), List.mem_cons, ih rest]
      constructor
      · rintro (same | found)
        · exact absurd (congrArg Prod.fst same).symm here
        · exact found
      · exact .inr

theorem assoc_append_of_ne (outside : ∀ pair ∈ before, pair.1 ≠ key) : assoc (before ++ after) key = assoc after key := by
  unfold assoc
  rw [List.find?_append, List.find?_eq_none.mpr (by simpa using outside), Option.none_or]

theorem assoc_none : assoc pairs key = none ↔ ∀ pair ∈ pairs, pair.1 ≠ key := by
  unfold assoc
  rw [Option.map_eq_none_iff, List.find?_eq_none]
  simp

theorem assoc_insert (below : ∀ pair ∈ before, pair.1 ≠ key) :
    assoc (before ++ (key, value) :: after) = Function.update (assoc (before ++ after)) key (some value) := by
  funext asked
  by_cases same : asked = key
  · subst same
    rw [Function.update_self, assoc_append_of_ne below]
    simp [assoc]
  · rw [Function.update_of_ne same]
    unfold assoc
    rw [List.find?_append, List.find?_append, List.find?_cons_of_neg (by simpa using Ne.symm same)]

theorem assoc_remove (below : ∀ pair ∈ before, pair.1 ≠ key) (above : ∀ pair ∈ after, pair.1 ≠ key) :
    assoc (before ++ after) = Function.update (assoc (before ++ (key, value) :: after)) key none := by
  rw [assoc_insert below, Function.update_idem, eq_comm, Function.update_eq_self_iff, eq_comm, assoc_none]
  exact fun pair member => (List.mem_append.mp member).elim (below pair) (above pair)

end Assoc

end QuorumDB.SearchWord
