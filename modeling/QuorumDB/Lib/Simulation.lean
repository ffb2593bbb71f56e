import QuorumDB.Lib.Execution

/-!
Simulations between two systems. Where every step of one is answered by some steps of the other,
or by none, an execution of the first is matched by one of the second, state by state.
-/

namespace QuorumDB.Execution

variable {State Action Fine Move : Type}
variable {initial : State → Prop} {step : State → Action → State → Prop}
variable {fineInitial : Fine → Prop} {fineStep : Fine → Move → Fine → Prop} {matched : Fine → State → Prop}

/-- Steps one after the other, and the states they leave, latest first. -/
inductive Steps (step : State → Action → State → Prop) (state : State) : List State → State → Prop where
  | none : Steps step state [] state
  | next {left : List State} {between later : State} {action : Action} (before : Steps step state left between)
      (move : step between action later) : Steps step state (between :: left) later

theorem Steps.one {state later : State} {action : Action} (move : step state action later) : Steps step state [state] later :=
  .next .none move

theorem Steps.starts {state later : State} {left : List State} (steps : Steps step state left later) : [state] <:+ later :: left := by
  induction steps with
  | none => exact List.suffix_refl _
  | next before move ih => exact ih.trans (List.suffix_cons _ _)

theorem Steps.trans {state between later : State} {early late : List State} (one : Steps step state early between)
    (two : Steps step between late later) : Steps step state (late ++ early) later := by
  induction two with
  | none => exact one
  | next before move ih => exact ih.next move

theorem Steps.mono {other : State → Move → State → Prop}
    (weaker : ∀ state action later, step state action later → ∃ label, other state label later) {state later : State}
    {left : List State} (steps : Steps step state left later) : Steps other state left later := by
  induction steps with
  | none => exact .none
  | next before move ih =>
    obtain ⟨label, moved⟩ := weaker _ _ _ move
    exact ih.next moved

theorem Run.steps {past left : List State} {state later : State} (run : Run initial step past state)
    (steps : Steps step state left later) : Run initial step (left ++ past) later := by
  induction steps with
  | none => exact run
  | next before move ih => exact ih.next move

theorem Run.simulated (start : ∀ fine, fineInitial fine → ∃ state, initial state ∧ matched fine state)
    (answers : ∀ {older : List State} {fine later : Fine} {move : Move} {state : State}, Run initial step older state →
      matched fine state → fineStep fine move later → ∃ left after, Steps step state left after ∧ matched later after)
    {past : List Fine} {fine : Fine} (run : Run fineInitial fineStep past fine) :
    ∃ older state, Run initial step older state ∧ matched fine state ∧
      ∀ earlier ∈ past, ∃ before ∈ state :: older, matched earlier before := by
  induction run with
  | start fresh =>
    obtain ⟨state, begins, same⟩ := start _ fresh
    exact ⟨[], state, .start begins, same, fun earlier impossible => absurd impossible List.not_mem_nil⟩
  | @next past fine later move before moved ih =>
    obtain ⟨older, state, reached, same, seen⟩ := ih
    obtain ⟨left, after, steps, done⟩ := answers reached same moved
    have inside : ∀ passed ∈ state :: older, passed ∈ after :: (left ++ older) := by
      intro passed member
      rcases List.mem_cons.mp member with rfl | inOlder
      · exact List.mem_append_left older (steps.starts.subset (List.mem_singleton_self _))
      · exact List.mem_append_right (after :: left) inOlder
    refine ⟨left ++ older, after, reached.steps steps, done, fun earlier member => ?_⟩
    rcases List.mem_cons.mp member with rfl | inPast
    · exact ⟨state, inside state List.mem_cons_self, same⟩
    · obtain ⟨passed, known, alike⟩ := seen earlier inPast
      exact ⟨passed, inside passed known, alike⟩

end QuorumDB.Execution
