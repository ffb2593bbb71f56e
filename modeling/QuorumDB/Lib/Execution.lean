import Mathlib.Data.List.Basic
import Mathlib.Data.List.Infix

/-!
Finite executions of a labelled transition relation. An execution keeps every
state it has left behind, so that statements about what held at some earlier
moment need no history variables in the state.
-/

namespace QuorumDB.Execution

variable {State Action : Type}

/-- The states an execution has left, latest first, and the state it is in. -/
inductive Run (initial : State → Prop) (step : State → Action → State → Prop) :
    List State → State → Prop where
  | start {state : State} (fresh : initial state) : Run initial step [] state
  | next {past : List State} {state later : State} {action : Action}
      (before : Run initial step past state) (move : step state action later) :
      Run initial step (state :: past) later

variable {initial : State → Prop} {step : State → Action → State → Prop}

theorem Run.invariant {holds : List State → State → Prop}
    (base : ∀ state, initial state → holds [] state)
    (preserved : ∀ past state action later, Run initial step past state → holds past state →
      step state action later → holds (state :: past) later)
    {past : List State} {state : State} (run : Run initial step past state) : holds past state := by
  induction run with
  | start fresh => exact base _ fresh
  | next before move ih => exact preserved _ _ _ _ before ih move

theorem Run.onward {holds : List State → State → Prop} {earlier : State} {older : List State}
    (base : holds older earlier)
    (preserved : ∀ past state action later, Run initial step past state → holds past state →
      step state action later → holds (state :: past) later)
    {past : List State} {state : State} (run : Run initial step past state)
    (within : earlier :: older <:+ state :: past) : holds past state := by
  induction run with
  | start fresh =>
    obtain ⟨rfl, rfl⟩ := List.cons.inj (within.eq_of_length_le (Nat.succ_le_succ (Nat.zero_le _)))
    exact base
  | next before move ih =>
    rcases List.suffix_cons_iff.mp within with same | inPast
    · obtain ⟨rfl, rfl⟩ := List.cons.inj same
      exact base
    · exact preserved _ _ _ _ before (ih inPast) move

theorem Run.earlier {earlier state : State} {older past : List State} (run : Run initial step past state)
    (within : earlier :: older <:+ state :: past) : Run initial step older earlier := by
  induction run with
  | start fresh =>
    obtain ⟨rfl, rfl⟩ := List.cons.inj (within.eq_of_length_le (Nat.succ_le_succ (Nat.zero_le _)))
    exact .start fresh
  | next before move ih =>
    rcases List.suffix_cons_iff.mp within with same | inPast
    · obtain ⟨rfl, rfl⟩ := List.cons.inj same
      exact .next before move
    · exact ih inPast

theorem Run.mono {Other : Type} {other : State → Other → State → Prop}
    (weaker : ∀ state action later, step state action later → ∃ label, other state label later)
    {past : List State} {state : State} (run : Run initial step past state) :
    Run initial other past state := by
  induction run with
  | start fresh => exact .start fresh
  | next before move ih =>
    obtain ⟨label, moved⟩ := weaker _ _ _ move
    exact .next ih moved

/-- Every state an execution passed through ends an execution of its own. -/
theorem Run.visited {past : List State} {state earlier : State}
    (run : Run initial step past state) (seen : earlier ∈ state :: past) :
    ∃ older, Run initial step older earlier ∧ earlier :: older <:+ state :: past := by
  induction run with
  | start fresh =>
    rw [List.mem_singleton] at seen
    subst seen
    exact ⟨[], .start fresh, List.suffix_refl _⟩
  | next before move ih =>
    rcases List.mem_cons.mp seen with same | inPast
    · subst same
      exact ⟨_, .next before move, List.suffix_refl _⟩
    · obtain ⟨older, shorter, within⟩ := ih inPast
      exact ⟨older, shorter, within.trans (List.suffix_cons _ _)⟩

/-- Executions given by a list of actions of a partial step function. -/
def replay (run : State → Action → Option State) : State → List Action → Option (List State × State)
  | state, [] => some ([], state)
  | state, action :: rest => do
      let later ← run state action
      let (past, final) ← replay run later rest
      some (past ++ [state], final)

theorem replay_starts {run : State → Action → Option State} {state : State} {actions : List Action}
    {visited : List State × State} (played : replay run state actions = some visited) :
    [state] <:+ visited.2 :: visited.1 := by
  cases actions with
  | nil =>
    obtain rfl := Option.some.inj played
    exact List.suffix_refl _
  | cons action rest =>
    simp only [replay, Option.bind_eq_bind, Option.bind_eq_some_iff] at played
    obtain ⟨later, -, ⟨past, final⟩, -, same⟩ := played
    obtain rfl := Option.some.inj same
    exact List.suffix_append (final :: past) [state]

theorem Run.append_replay {run : State → Action → Option State} {past between : List State}
    {state final : State} {actions : List Action}
    (before : Run initial (fun s a t => run s a = some t) past state)
    (played : replay run state actions = some (between, final)) :
    Run initial (fun s a t => run s a = some t) (between ++ past) final := by
  induction actions generalizing past between state with
  | nil =>
    simp only [replay, Option.some.injEq, Prod.mk.injEq] at played
    obtain ⟨rfl, rfl⟩ := played
    exact before
  | cons action rest ih =>
    simp only [replay, Option.bind_eq_bind, Option.bind_eq_some_iff, Option.some.injEq,
      Prod.mk.injEq] at played
    obtain ⟨later, moved, ⟨tail, last⟩, rest_played, rfl, rfl⟩ := played
    have extended := ih (before.next moved) rest_played
    simpa only [List.append_assoc, List.singleton_append] using extended

end QuorumDB.Execution
