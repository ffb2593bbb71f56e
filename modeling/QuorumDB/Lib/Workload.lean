import QuorumDB.Lib.Execution
import Mathlib.Algebra.BigOperators.Group.Finset.Basic

/-!
Systems that have only so much left to do. Each thread is at some stage, which has so many steps before
its end; what all threads have left is a sum, and an execution spends it.
-/

namespace QuorumDB.Execution
open Finset

variable {State Action Stage : Type}

section Threads

variable (left : Stage → Nat) (stage : Nat → Stage)

theorem sum_update {count thread : Nat} (inside : thread < count) (next : Stage) :
    (∑ other ∈ range count, left (Function.update stage thread next other)) + left (stage thread) =
      (∑ other ∈ range count, left (stage other)) + left next := by
  have member : thread ∈ range count := mem_range.mpr inside
  have others : ∑ other ∈ (range count).erase thread, left (Function.update stage thread next other) =
      ∑ other ∈ (range count).erase thread, left (stage other) := by
    apply sum_congr rfl
    intro other apart
    rw [Function.update_of_ne (ne_of_mem_erase apart)]
  rw [← add_sum_erase _ _ member, ← add_sum_erase _ (fun other => left (stage other)) member, others, Function.update_self]
  omega

theorem sum_fresh (count : Nat) (first : Stage) :
    ∑ other ∈ range (count + 1), left (Function.update stage count first other) =
      (∑ other ∈ range count, left (stage other)) + left first := by
  rw [sum_range_succ, Function.update_self]
  apply congrArg (· + left first)
  apply sum_congr rfl
  intro other inside
  rw [Function.update_of_ne (Nat.ne_of_lt (mem_range.mp inside))]

end Threads

/-- Where each counted action of a busy system costs some of what is left, there are no more of them
than that. -/
theorem replay_spends {run : State → Action → Option State} {known busy : State → Prop} {counted : Action → Bool}
    {left : State → Nat}
    (kept : ∀ state action later, known state → run state action = some later → known later)
    (spends : ∀ state action later, known state → busy state → run state action = some later →
      left later + (if counted action then 1 else 0) ≤ left state)
    {state : State} {actions : List Action} {visited : List State × State}
    (played : replay run state actions = some visited) (knows : known state) (works : ∀ passed ∈ visited.1, busy passed) :
    actions.countP counted + left visited.2 ≤ left state ∧ known visited.2 := by
  induction actions generalizing state visited with
  | nil =>
    obtain rfl := Option.some.inj played
    rw [List.countP_nil, Nat.zero_add]
    exact ⟨le_refl _, knows⟩
  | cons action rest ih =>
    simp only [replay, Option.bind_eq_bind, Option.bind_eq_some_iff] at played
    obtain ⟨later, moved, ⟨past, final⟩, playedRest, same⟩ := played
    obtain rfl := Option.some.inj same
    have first := spends state action later knows (works state (List.mem_append_right _ (List.mem_singleton_self _))) moved
    obtain ⟨others, knowsFinal⟩ := ih playedRest (kept state action later knows moved)
      fun passed member => works passed (List.mem_append_left _ member)
    refine ⟨?_, knowsFinal⟩
    rw [List.countP_cons]
    change rest.countP counted + left final ≤ left later at others
    change rest.countP counted + _ + left final ≤ left state
    omega

end QuorumDB.Execution
