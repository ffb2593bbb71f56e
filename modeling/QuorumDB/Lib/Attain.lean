import QuorumDB.Lib.Simulation

/-!
What a system can be brought to. A goal is attained from a state when some steps lead to it, and
attaining composes: along steps, and along a list of tasks.
-/

namespace QuorumDB.Execution

variable {State Action Task : Type} {step : State → Action → State → Prop} {state later : State} {action : Action}
variable {goal next : State → Prop}

def Attains (step : State → Action → State → Prop) (state : State) (goal : State → Prop) : Prop :=
  ∃ left later, Steps step state left later ∧ goal later

namespace Attains

theorem here (holds : goal state) : Attains step state goal :=
  ⟨[], state, .none, holds⟩

theorem trans (first : Attains step state next) (rest : ∀ between, next between → Attains step between goal) :
    Attains step state goal := by
  obtain ⟨early, between, one, reached⟩ := first
  obtain ⟨late, later, two, holds⟩ := rest between reached
  exact ⟨late ++ early, later, one.trans two, holds⟩

theorem mono (attains : Attains step state next) (weaker : ∀ later, next later → goal later) : Attains step state goal :=
  attains.trans fun later reached => here (weaker later reached)

theorem after (move : step state action later) (rest : Attains step later goal) : Attains step state goal := by
  have first : Attains step state fun reached => reached = later := ⟨[state], later, .one move, rfl⟩
  apply first.trans
  rintro between rfl
  exact rest

theorem forEach {pending : List Task → State → Prop}
    (does : ∀ task rest state, pending (task :: rest) state → Attains step state fun later => goal later ∨ pending rest later)
    (ends : ∀ state, pending [] state → goal state) {tasks : List Task} (known : pending tasks state) :
    Attains step state goal := by
  induction tasks generalizing state with
  | nil => exact here (ends state known)
  | cons task rest ih =>
    apply (does task rest state known).trans
    rintro later (done | left)
    · exact here done
    · exact ih left

end Attains

end QuorumDB.Execution
