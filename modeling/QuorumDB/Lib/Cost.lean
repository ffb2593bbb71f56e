import QuorumDB.Lib.Program

/-!
What a run costs. Calls have weights, and credit pays for them. That a credit is enough, whatever the
answers, is proved along the program and without a state.
-/

namespace QuorumDB.Program

variable {Call : Type} {Answer : Call → Type} {Err Value Result State : Type}

/-- The weights of the calls of a run, up to the one that throws. -/
def cost (weight : Call → Nat) (handler : Handler Call Answer Err State) : Prog Call Answer Err Value → State → Nat
  | .done _, _ => 0
  | .fail _, _ => 0
  | .call request next, state =>
      weight request +
        match handler request state with
        | some (.ok answer, later) => cost weight handler (next answer) later
        | _ => 0

theorem cost_bind {weight : Call → Nat} {handler : Handler Call Answer Err State} {program : Prog Call Answer Err Value}
    {next : Value → Prog Call Answer Err Result} {state later : State} {value : Value}
    (ran : run handler program state = some (.ok value, later)) :
    cost weight handler (program >>= next) state = cost weight handler program state + cost weight handler (next value) later := by
  induction program generalizing state with
  | done same =>
    cases ran
    exact (Nat.zero_add _).symm
  | fail error => cases ran
  | call request rest ih =>
    change cost weight handler (.call request fun answer => rest answer >>= next) state = _
    rw [run] at ran
    rcases handled : handler request state with _ | ⟨error | answer, middle⟩
    · rw [handled] at ran
      cases ran
    · rw [handled] at ran
      cases ran
    · rw [handled] at ran
      simp only [cost, handled]
      rw [ih answer ran, Nat.add_assoc]

/-- Credit pays for the calls, if they answer only as they may, and so much of it is left at the end. -/
inductive Affords (weight : Call → Nat) (may : (request : Call) → Answer request → Prop) :
    Nat → (Value → Nat) → Prog Call Answer Err Value → Prop
  | done {credit : Nat} {left : Value → Nat} {value : Value} (rest : left value ≤ credit) :
      Affords weight may credit left (.done value)
  | fail {credit : Nat} {left : Value → Nat} (error : Err) : Affords weight may credit left (.fail error)
  | call {credit behind : Nat} {left : Value → Nat} {request : Call} {next : Answer request → Prog Call Answer Err Value}
      (pays : weight request + behind ≤ credit) (rest : ∀ answer, may request answer → Affords weight may behind left (next answer)) :
      Affords weight may credit left (.call request next)

namespace Affords

variable {weight : Call → Nat} {may : (request : Call) → Answer request → Prop} {credit more : Nat} {left fewer : Value → Nat}
variable {program other : Prog Call Answer Err Value}

theorem mono (affords : Affords weight may credit left program) (le : credit ≤ more) (leaves : ∀ value, fewer value ≤ left value) :
    Affords weight may more fewer program := by
  induction affords generalizing more with
  | done rest => exact .done (Nat.le_trans (leaves _) (Nat.le_trans rest le))
  | fail error => exact .fail error
  | call pays rest ih => exact .call (Nat.le_trans pays le) fun answer known => ih answer known (Nat.le_refl _) leaves

theorem frame (affords : Affords weight may credit left program) (extra : Nat) :
    Affords weight may (credit + extra) (fun value => left value + extra) program := by
  induction affords with
  | done rest => exact .done (Nat.add_le_add_right rest extra)
  | fail error => exact .fail error
  | call pays _ ih => exact .call (by omega) ih

theorem bind {next : Value → Prog Call Answer Err Result} {last : Result → Nat} (first : Affords weight may credit left program)
    (rest : ∀ value, Affords weight may (left value) last (next value)) : Affords weight may credit last (program >>= next) := by
  induction first with
  | done enough => exact (rest _).mono enough fun _ => Nat.le_refl _
  | fail error => exact .fail error
  | call pays _ ih => exact .call pays fun answer known => ih answer known rest

theorem branch {condition : Prop} [Decidable condition] (holds : Affords weight may credit left program)
    (fails : Affords weight may credit left other) : Affords weight may credit left (if condition then program else other) := by
  by_cases here : condition
  · rw [if_pos here]
    exact holds
  · rw [if_neg here]
    exact fails

theorem cost_le (affords : Affords weight may credit left program) {handler : Handler Call Answer Err State}
    (answers : ∀ request state answer later, handler request state = some (.ok answer, later) → may request answer)
    (state : State) : cost weight handler program state ≤ credit := by
  induction affords generalizing state with
  | done rest => exact Nat.zero_le _
  | fail error => exact Nat.zero_le _
  | @call credit behind left request next pays rest ih =>
    rw [cost]
    split
    next answer later handled =>
      have after := ih answer (answers request state answer later handled) later
      omega
    · omega

end Affords

/-- Unless an assertion fails the two programs cost the same. -/
theorem Asserts.cost_eq {own : Err → Prop} {strict plain : Prog Call Answer Err Value} (asserts : Asserts own strict plain)
    {handler : Handler Call Answer Err State} {state : State} (weight : Call → Nat)
    (passed : ∀ error later, run handler strict state = some (.error error, later) → ¬ own error) :
    cost weight handler plain state = cost weight handler strict state := by
  induction asserts generalizing state with
  | done value => rfl
  | fail error => rfl
  | stop known plain => exact absurd known (passed _ state rfl)
  | @call request strict plain rest ih =>
    simp only [run, cost] at passed ⊢
    rcases handled : handler request state with _ | ⟨error | answer, later⟩
    · rfl
    · rfl
    · rw [handled] at passed
      simp only
      rw [ih answer passed]

end QuorumDB.Program
