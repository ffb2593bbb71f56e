import QuorumDB.Lib.Bytes
import Mathlib.Data.List.Infix
import Mathlib.Order.Bounds.Defs

/-!
A file written piece by piece and cut somewhere: what is left is a number of whole
pieces and at most a part of the next one.
-/

namespace QuorumDB.Cut

variable {Item : Type} {write : Item → Bytes}

def Torn (write : Item → Bytes) (item : Item) (part : Bytes) : Prop :=
  part <+: write item ∧ part.length < (write item).length

/-- The first pieces, and a part of the next one if there is one. -/
structure Left (write : Item → Bytes) (items : List Item) (whole : Nat) (part : Bytes) : Prop where
  count : whole ≤ items.length
  torn : part = [] ∨ ∃ item, items[whole]? = some item ∧ Torn write item part

theorem Left.nil (items : List Item) : Left write items items.length [] :=
  ⟨Nat.le_refl _, .inl rfl⟩

theorem Left.cons {items : List Item} {whole : Nat} {part : Bytes} (left : Left write items whole part) (item : Item) :
    Left write (item :: items) (whole + 1) part :=
  ⟨Nat.succ_le_succ left.count, left.torn.imp_right fun torn => torn⟩

theorem cut_flatMap (items : List Item) {bytes : Bytes} (cut : bytes <+: items.flatMap write) :
    ∃ whole part, bytes = (items.take whole).flatMap write ++ part ∧ Left write items whole part := by
  induction items generalizing bytes with
  | nil =>
    rw [List.flatMap_nil, List.prefix_nil] at cut
    exact ⟨0, [], cut, .nil []⟩
  | cons item items ih =>
    rw [List.flatMap_cons] at cut
    by_cases short : bytes.length < (write item).length
    · have inside : bytes <+: write item :=
        List.prefix_of_prefix_length_le cut (List.prefix_append _ _) (Nat.le_of_lt short)
      exact ⟨0, bytes, rfl, Nat.zero_le _, .inr ⟨item, rfl, inside, short⟩⟩
    · have front : write item <+: bytes :=
        List.prefix_of_prefix_length_le (List.prefix_append _ _) cut (Nat.le_of_not_lt short)
      obtain ⟨rest, rfl⟩ := front
      rw [List.prefix_append_right_inj] at cut
      obtain ⟨whole, part, shape, left⟩ := ih cut
      refine ⟨whole + 1, part, ?_, left.cons item⟩
      rw [List.take_succ_cons, List.flatMap_cons, List.append_assoc, ← shape]

theorem Left.behind (solid : ∀ item, 0 < (write item).length) {first second : List Item} {whole : Nat} {part : Bytes}
    (left : Left write (first ++ second) whole part)
    (long : (first.flatMap write).length ≤ (((first ++ second).take whole).flatMap write ++ part).length) :
    first.length ≤ whole := by
  by_contra less
  rw [Nat.not_le] at less
  have within : (first ++ second).take whole = first.take whole := List.take_append_of_le_length (Nat.le_of_lt less)
  have split : first.flatMap write = (first.take whole).flatMap write ++ (first.drop whole).flatMap write := by
    rw [← List.flatMap_append, List.take_append_drop]
  rw [within, split, List.length_append, List.length_append, Nat.add_le_add_iff_left] at long
  have next : first.drop whole = first[whole] :: first.drop (whole + 1) := List.drop_eq_getElem_cons less
  rw [next, List.flatMap_cons, List.length_append] at long
  have here : (first ++ second)[whole]? = some first[whole] := by
    rw [List.getElem?_append_left less, List.getElem?_eq_getElem less]
  have positive := solid first[whole]
  rcases left.torn with empty | ⟨item, found, -, short⟩
  · rw [empty, List.length_nil] at long
    omega
  · rw [here] at found
    obtain rfl := Option.some.inj found
    omega

theorem Left.greatest (solid : ∀ item, 0 < (write item).length) {items : List Item} {whole : Nat} {part : Bytes}
    (left : Left write items whole part) :
    IsGreatest {count | count ≤ items.length ∧
      ((items.take count).flatMap write).length ≤ ((items.take whole).flatMap write ++ part).length} whole := by
  constructor
  · have longer := Nat.le_add_right ((items.take whole).flatMap write).length part.length
    rw [← List.length_append] at longer
    exact ⟨left.count, longer⟩
  · rintro count ⟨few, inside⟩
    rw [← List.take_append_drop count items] at left
    have behind := left.behind solid (by rw [List.take_append_drop]; exact inside)
    rw [List.length_take, Nat.min_eq_left few] at behind
    exact behind

end QuorumDB.Cut
