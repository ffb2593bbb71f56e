import QuorumDB.Lib.Program

/-!
Programs between whose calls others act. What is known of the state at such a moment is a
phase, which the others leave as it is; every call of the program leads from one phase to
another.
-/

namespace QuorumDB.Program

variable {Call : Type} {Answer : Call → Type} {Err Value Result State Phase : Type}

namespace Prog

def request? : Prog Call Answer Err Value → Option Call
  | .call request _ => some request
  | _ => none

def advance (handler : Handler Call Answer Err State) : Prog Call Answer Err Value → State →
    Option (Prog Call Answer Err Value × State)
  | .call request next, state =>
      match handler request state with
      | some (.ok answer, later) => some (next answer, later)
      | _ => none
  | _, _ => none

theorem advance_cases {handler : Handler Call Answer Err State} {program rest : Prog Call Answer Err Value} {state later : State}
    (advanced : program.advance handler state = some (rest, later)) :
    ∃ request next answer, program = .call request next ∧ handler request state = some (.ok answer, later) ∧
      rest = next answer := by
  cases program with
  | done value => cases advanced
  | fail error => cases advanced
  | call request next =>
    rw [advance] at advanced
    match handled : handler request state with
    | none =>
      rw [handled] at advanced
      cases advanced
    | some (.error error, left) =>
      rw [handled] at advanced
      cases advanced
    | some (.ok answer, left) =>
      rw [handled] at advanced
      obtain ⟨rfl, rfl⟩ := Prod.mk.inj (Option.some.inj advanced)
      exact ⟨request, next, answer, rfl, handled, rfl⟩

end Prog

section Guarding

variable {handler : Handler Call Answer Err State} {describes : Phase → State → Prop}
variable {allowed : Phase → Call → Phase → Prop} {ends : Value → Phase → Prop}

/-- From this phase every call that answers leads to a phase it may lead to, until the program ends. A call that
fails is not followed by anything. -/
def Guards (handler : Handler Call Answer Err State) (describes : Phase → State → Prop)
    (allowed : Phase → Call → Phase → Prop) (ends : Value → Phase → Prop) : Prog Call Answer Err Value → Phase → Prop
  | .done value, phase => ends value phase
  | .fail _, _ => True
  | .call request next, phase => ∀ state answer later, describes phase state →
      handler request state = some (.ok answer, later) →
      ∃ reached, describes reached later ∧ allowed phase request reached ∧
        Guards handler describes allowed ends (next answer) reached

theorem Guards.seq {program : Prog Call Answer Err Value} {next : Value → Prog Call Answer Err Result}
    {final : Result → Phase → Prop} {phase : Phase} (first : Guards handler describes allowed ends program phase)
    (rest : ∀ value reached, ends value reached → Guards handler describes allowed final (next value) reached) :
    Guards handler describes allowed final (program >>= next) phase := by
  induction program generalizing phase with
  | done value => exact rest value phase first
  | fail error => trivial
  | call request behind ih =>
    intro state answer later described handled
    obtain ⟨reached, still, led, guarded⟩ := first state answer later described handled
    exact ⟨reached, still, led, ih answer guarded⟩

theorem Guards.advance {program rest : Prog Call Answer Err Value} {phase : Phase} {state later : State}
    (guards : Guards handler describes allowed ends program phase) (described : describes phase state)
    (advanced : program.advance handler state = some (rest, later)) :
    ∃ request reached, program.request? = some request ∧ describes reached later ∧ allowed phase request reached ∧
      Guards handler describes allowed ends rest reached := by
  obtain ⟨request, next, answer, rfl, handled, rfl⟩ := Prog.advance_cases advanced
  obtain ⟨reached, still, led, guarded⟩ := guards state answer later described handled
  exact ⟨request, reached, rfl, still, led, guarded⟩

end Guarding

end QuorumDB.Program
