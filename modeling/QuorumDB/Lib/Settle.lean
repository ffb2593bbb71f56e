import Mathlib.Data.Option.Basic

/-!
Changes of an optional value that set it, or fill it in where there is none. They are
closed under composition, and doing one again does nothing.
-/

namespace QuorumDB.Settle

variable {Value Item : Type} {first second change : Option Value → Option Value}

/-- The change makes the same of everything, or keeps a value that is there. -/
def Settles (change : Option Value → Option Value) : Prop :=
  (∃ result, ∀ value, change value = result) ∨ ∃ filler, ∀ value, change value = value.or filler

theorem settles_set (result : Option Value) : Settles fun _ => result := .inl ⟨result, fun _ => rfl⟩

theorem settles_fill (filler : Option Value) : Settles fun value => value.or filler := .inr ⟨filler, fun _ => rfl⟩

theorem settles_keep : Settles fun value : Option Value => value := .inr ⟨none, fun _ => Option.or_none.symm⟩

theorem Settles.comp (one : Settles first) (two : Settles second) : Settles fun value => second (first value) := by
  rcases two with ⟨result, sets⟩ | ⟨filler, fills⟩
  · exact .inl ⟨result, fun value => sets (first value)⟩
  · rcases one with ⟨result, sets⟩ | ⟨early, fillsEarly⟩
    · refine .inl ⟨result.or filler, fun value => ?_⟩
      change second (first value) = _
      rw [fills, sets]
    · refine .inr ⟨early.or filler, fun value => ?_⟩
      change second (first value) = _
      rw [fills, fillsEarly, Option.or_assoc]

theorem Settles.twice (settles : Settles change) (value : Option Value) : change (change value) = change value := by
  rcases settles with ⟨result, sets⟩ | ⟨filler, fills⟩
  · rw [sets, sets]
  · rw [fills, fills, Option.or_assoc, Option.or_self]

theorem settles_foldl {step : Option Value → Item → Option Value} {items : List Item}
    (each : ∀ item ∈ items, Settles fun value => step value item) : Settles fun value => items.foldl step value := by
  induction items with
  | nil => exact settles_keep
  | cons item items ih =>
    have rest := ih fun other member => each other (List.mem_cons_of_mem _ member)
    exact (each item List.mem_cons_self).comp rest

end QuorumDB.Settle
