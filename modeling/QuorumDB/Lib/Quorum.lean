import Mathlib.Data.Finset.Card
import Mathlib.Data.Finset.Basic

/-! Strict majorities of a finite membership. -/

namespace QuorumDB.Quorum

variable {Member : Type} [DecidableEq Member]

def Majority (members : List Member) (quorum : Finset Member) : Prop :=
  quorum ⊆ members.toFinset ∧ members.length < 2 * quorum.card

/-- Any two majorities of one membership share a member. -/
theorem Majority.common {members : List Member} {first second : Finset Member}
    (left : Majority members first) (right : Majority members second) :
    ∃ member, member ∈ first ∧ member ∈ second := by
  have small := List.toFinset_card_le members
  have overlap : members.toFinset.card < first.card + second.card := by
    have l := left.2
    have r := right.2
    omega
  obtain ⟨member, shared⟩ :=
    Finset.inter_nonempty_of_card_lt_card_add_card left.1 right.1 overlap
  exact ⟨member, Finset.mem_inter.mp shared⟩

theorem Majority.mem {members : List Member} {quorum : Finset Member}
    (majority : Majority members quorum) {member : Member} (inside : member ∈ quorum) :
    member ∈ members :=
  List.mem_toFinset.mp (majority.1 inside)

theorem majority_all {members : List Member} (distinct : members.Nodup) (nonempty : members ≠ []) :
    Majority members members.toFinset := by
  refine ⟨Finset.Subset.refl _, ?_⟩
  rw [List.toFinset_card_of_nodup distinct]
  have positive := List.length_pos_of_ne_nil nonempty
  omega

end QuorumDB.Quorum
