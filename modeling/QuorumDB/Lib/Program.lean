/-!
Programs over abstract calls. A program is a tree of calls with a continuation for
each answer; a handler gives the calls a meaning on some state. What a program ensures
is proved call by call, and holds for every handler that agrees along the run.
-/

namespace QuorumDB.Program

/-- A program making calls from `Call`, answered in `Answer`, that may fail with an `Err`. -/
inductive Prog (Call : Type) (Answer : Call → Type) (Err Value : Type) where
  | done (value : Value)
  | fail (error : Err)
  | call (request : Call) (next : Answer request → Prog Call Answer Err Value)

variable {Call : Type} {Answer : Call → Type} {Err Value Result State Extra : Type}

namespace Prog

def bind (program : Prog Call Answer Err Value) (next : Value → Prog Call Answer Err Result) :
    Prog Call Answer Err Result :=
  match program with
  | .done value => next value
  | .fail error => .fail error
  | .call request rest => .call request fun answer => (rest answer).bind next

instance : Monad (Prog Call Answer Err) where
  pure := .done
  bind := bind

def ask (request : Call) : Prog Call Answer Err (Answer request) :=
  .call request .done

@[simp] theorem pure_eq (value : Value) : (pure value : Prog Call Answer Err Value) = .done value := rfl

@[simp] theorem done_bind (value : Value) (next : Value → Prog Call Answer Err Result) :
    (Prog.done value >>= next) = next value := rfl

@[simp] theorem fail_bind (error : Err) (next : Value → Prog Call Answer Err Result) :
    (Prog.fail error >>= next) = .fail error := rfl

@[simp] theorem ask_bind (request : Call) (next : Answer request → Prog Call Answer Err Result) :
    (ask request >>= next) = .call request next := rfl

end Prog

/-- What each call does to a state: an answer or an error, and the state after it.
`none` is a call the state gives no meaning to. -/
abbrev Handler (Call : Type) (Answer : Call → Type) (Err State : Type) : Type :=
  (request : Call) → State → Option (Except Err (Answer request) × State)

def run (handler : Handler Call Answer Err State) : Prog Call Answer Err Value → State →
    Option (Except Err Value × State)
  | .done value, state => some (.ok value, state)
  | .fail error, state => some (.error error, state)
  | .call request next, state =>
      match handler request state with
      | none => none
      | some (.error error, later) => some (.error error, later)
      | some (.ok answer, later) => run handler (next answer) later

theorem run_call {handler : Handler Call Answer Err State} {request : Call} {state later : State} {answer : Answer request}
    (handled : handler request state = some (.ok answer, later)) (next : Answer request → Prog Call Answer Err Value) :
    run handler (.call request next) state = run handler (next answer) later := by
  simp only [run, handled]

theorem run_bind {handler : Handler Call Answer Err State} {program : Prog Call Answer Err Value} {state later : State}
    {value : Value} (ran : run handler program state = some (.ok value, later)) (next : Value → Prog Call Answer Err Result) :
    run handler (program >>= next) state = run handler (next value) later := by
  induction program generalizing state with
  | done value =>
    cases ran
    rfl
  | fail error => cases ran
  | call request rest ih =>
    change run handler (.call request fun answer => rest answer >>= next) state = _
    rw [run] at ran ⊢
    match handled : handler request state with
    | none =>
      rw [handled] at ran
      cases ran
    | some (.error error, middle) =>
      rw [handled] at ran
      cases ran
    | some (.ok answer, middle) =>
      rw [handled] at ran
      exact ih answer ran

theorem run_bind_cases {handler : Handler Call Answer Err State} {program : Prog Call Answer Err Value}
    {next : Value → Prog Call Answer Err Result} {state last : State} {result : Except Err Result}
    (ran : run handler (program >>= next) state = some (result, last)) :
    (∃ value later, run handler program state = some (.ok value, later) ∧
      run handler (next value) later = some (result, last)) ∨
    ∃ error, result = .error error ∧ run handler program state = some (.error error, last) := by
  induction program generalizing state with
  | done value => exact .inl ⟨value, state, rfl, ran⟩
  | fail error =>
    obtain ⟨rfl, rfl⟩ := Prod.mk.inj (Option.some.inj ran)
    exact .inr ⟨error, rfl, rfl⟩
  | call request rest ih =>
    change run handler (.call request fun answer => rest answer >>= next) state = _ at ran
    simp only [run] at ran ⊢
    match handled : handler request state with
    | none =>
      rw [handled] at ran
      cases ran
    | some (.error error, middle) =>
      rw [handled] at ran
      obtain ⟨rfl, rfl⟩ := Prod.mk.inj (Option.some.inj ran)
      exact .inr ⟨error, rfl, rfl⟩
    | some (.ok answer, middle) =>
      rw [handled] at ran
      exact ih answer ran

theorem run_throw {handler : Handler Call Answer Err State} {request : Call} {next : Answer request → Prog Call Answer Err Value}
    {state thrown later : State} {error : Err} {result : Except Err Value}
    (handled : handler request state = some (.error error, thrown))
    (ran : run handler (.call request next) state = some (result, later)) : later = thrown := by
  simp only [run, handled] at ran
  exact (Prod.mk.inj (Option.some.inj ran)).2.symm

def visits (handler : Handler Call Answer Err State) : Prog Call Answer Err Value → State → List State
  | .done _, state => [state]
  | .fail _, state => [state]
  | .call request next, state =>
      state :: match handler request state with
        | none => []
        | some (.error _, later) => [later]
        | some (.ok answer, later) => visits handler (next answer) later

theorem start_mem_visits (handler : Handler Call Answer Err State) (program : Prog Call Answer Err Value) (state : State) :
    state ∈ visits handler program state := by
  cases program with
  | done value => exact List.mem_singleton_self state
  | fail error => exact List.mem_singleton_self state
  | call request next =>
    rw [visits]
    exact List.mem_cons_self

theorem mem_visits_bind {handler : Handler Call Answer Err State} {program : Prog Call Answer Err Value}
    {next : Value → Prog Call Answer Err Result} {state seen : State} (member : seen ∈ visits handler (program >>= next) state) :
    seen ∈ visits handler program state ∨
      ∃ value later, run handler program state = some (.ok value, later) ∧ seen ∈ visits handler (next value) later := by
  induction program generalizing state with
  | done value => exact .inr ⟨value, state, rfl, member⟩
  | fail error => exact .inl member
  | call request rest ih =>
    change seen ∈ visits handler (.call request fun answer => rest answer >>= next) state at member
    match handled : handler request state with
    | none =>
      simp only [visits, handled] at member ⊢
      exact .inl member
    | some (.error error, later) =>
      simp only [visits, handled] at member ⊢
      exact .inl member
    | some (.ok answer, later) =>
      simp only [visits, run, handled] at member ⊢
      rcases List.mem_cons.mp member with here | inside
      · exact .inl (List.mem_cons.mpr (.inl here))
      · exact (ih answer inside).imp_left fun first => List.mem_cons_of_mem _ first

inductive Only (allowed : Call → Prop) : Prog Call Answer Err Value → Prop
  | done (value : Value) : Only allowed (.done value)
  | fail (error : Err) : Only allowed (.fail error)
  | call {request : Call} {next : Answer request → Prog Call Answer Err Value} (here : allowed request)
      (rest : ∀ answer, Only allowed (next answer)) : Only allowed (.call request next)

def Along (handler : Handler Call Answer Err State) (holds : Call → State → Prop) :
    Prog Call Answer Err Value → State → Prop
  | .done _, _ => True
  | .fail _, _ => True
  | .call request next, state =>
      holds request state ∧
        match handler request state with
        | some (.ok answer, later) => Along handler holds (next answer) later
        | _ => True

theorem along_call {handler : Handler Call Answer Err State} {holds : Call → State → Prop} {request : Call}
    {next : Answer request → Prog Call Answer Err Value} {state : State} :
    Along handler holds (.call request next) state ↔ holds request state ∧
      ∀ answer later, handler request state = some (.ok answer, later) → Along handler holds (next answer) later := by
  rw [Along]
  refine and_congr_right fun _ => ?_
  rcases handler request state with _ | ⟨error | answer, later⟩
  · exact iff_of_true trivial fun _ _ impossible => by cases impossible
  · exact iff_of_true trivial fun _ _ impossible => by cases impossible
  · constructor
    · rintro behind _ _ ⟨⟩
      exact behind
    · intro behind
      exact behind answer later rfl

instance decidableAlong {handler : Handler Call Answer Err State} {holds : Call → State → Prop}
    [∀ request state, Decidable (holds request state)] :
    (program : Prog Call Answer Err Value) → (state : State) → Decidable (Along handler holds program state)
  | .done _, _ => isTrue trivial
  | .fail _, _ => isTrue trivial
  | .call request next, state =>
      let behind : Decidable (∀ answer later, handler request state = some (.ok answer, later) →
          Along handler holds (next answer) later) :=
        match handler request state with
        | some (.ok answer, later) =>
            have : Decidable (Along handler holds (next answer) later) := decidableAlong (next answer) later
            decidable_of_iff (Along handler holds (next answer) later)
              ⟨fun holds _ _ same => by cases same; exact holds, fun every => every answer later rfl⟩
        | some (.error _, _) => isTrue fun _ _ impossible => by cases impossible
        | none => isTrue fun _ _ impossible => by cases impossible
      decidable_of_iff _ along_call.symm

/-- Every call of a run satisfies `holds`, from the first one on that `starts`. -/
def AlongFrom (handler : Handler Call Answer Err State) (starts : Call → Bool) (holds : Call → State → Prop) :
    Prog Call Answer Err Value → State → Prop
  | .done _, _ => True
  | .fail _, _ => True
  | .call request next, state =>
      if starts request then Along handler holds (.call request next) state
      else
        match handler request state with
        | some (.ok answer, later) => AlongFrom handler starts holds (next answer) later
        | _ => True

theorem Only.along {handler : Handler Call Answer Err State} {allowed : Call → Prop} {holds : Call → State → Prop}
    (fine : ∀ request state, allowed request → holds request state) {program : Prog Call Answer Err Value}
    (only : Only allowed program) (state : State) : Along handler holds program state := by
  induction only generalizing state with
  | done value => trivial
  | fail error => trivial
  | @call request next here rest ih =>
    rw [Along]
    refine ⟨fine request state here, ?_⟩
    split
    · exact ih _ _
    · trivial

theorem Only.mono {allowed wider : Call → Prop} (weaker : ∀ request, allowed request → wider request)
    {program : Prog Call Answer Err Value} (only : Only allowed program) : Only wider program := by
  induction only with
  | done value => exact .done value
  | fail error => exact .fail error
  | call here rest ih => exact .call (weaker _ here) ih

theorem Only.bind {allowed : Call → Prop} {program : Prog Call Answer Err Value}
    {next : Value → Prog Call Answer Err Result} (first : Only allowed program)
    (rest : ∀ value, Only allowed (next value)) : Only allowed (program >>= next) := by
  induction first with
  | done value => exact rest value
  | fail error => exact .fail error
  | call here behind ih => exact .call here ih

theorem Only.keeps {handler : Handler Call Answer Err State} {allowed : Call → Prop} {holds : State → Prop}
    (step : ∀ request state result later, allowed request → holds state →
      handler request state = some (result, later) → holds later)
    {program : Prog Call Answer Err Value} (only : Only allowed program) {state later : State} {result : Except Err Value}
    (now : holds state) (ran : run handler program state = some (result, later)) : holds later := by
  induction only generalizing state with
  | done value => exact (Prod.mk.inj (Option.some.inj ran)).2 ▸ now
  | fail error => exact (Prod.mk.inj (Option.some.inj ran)).2 ▸ now
  | @call request next here rest ih =>
    rw [run] at ran
    match handled : handler request state with
    | none =>
      rw [handled] at ran
      cases ran
    | some (.error error, middle) =>
      rw [handled] at ran
      have kept := step request state _ middle here now handled
      exact (Prod.mk.inj (Option.some.inj ran)).2 ▸ kept
    | some (.ok answer, middle) =>
      rw [handled] at ran
      exact ih answer (step request state _ middle here now handled) ran

theorem Only.along_from {handler : Handler Call Answer Err State} {starts : Call → Bool} {holds : Call → State → Prop}
    {program : Prog Call Answer Err Value} (only : Only (fun request => starts request = false) program)
    {next : Value → Prog Call Answer Err Result} {state later : State} {value : Value}
    (along : AlongFrom handler starts holds (program >>= next) state)
    (ran : run handler program state = some (.ok value, later)) : AlongFrom handler starts holds (next value) later := by
  induction only generalizing state with
  | done same =>
    cases ran
    exact along
  | fail error => cases ran
  | @call request rest here behind ih =>
    change AlongFrom handler starts holds (.call request fun answer => rest answer >>= next) state at along
    rw [AlongFrom, if_neg (here ▸ Bool.false_ne_true)] at along
    rw [run] at ran
    match handled : handler request state with
    | none =>
      rw [handled] at ran
      cases ran
    | some (.error error, middle) =>
      rw [handled] at ran
      cases ran
    | some (.ok answer, middle) =>
      rw [handled] at ran along
      exact ih answer along ran

theorem Only.from_bind {handler : Handler Call Answer Err State} {starts : Call → Bool} {holds : Call → State → Prop}
    {program : Prog Call Answer Err Value} (only : Only (fun request => starts request = false) program)
    {next : Value → Prog Call Answer Err Result} {state : State}
    (rest : ∀ value later, run handler program state = some (.ok value, later) →
      AlongFrom handler starts holds (next value) later) : AlongFrom handler starts holds (program >>= next) state := by
  induction only generalizing state with
  | done value => exact rest value state rfl
  | fail error => trivial
  | @call request behind here only ih =>
    change AlongFrom handler starts holds (.call request fun answer => behind answer >>= next) state
    rw [AlongFrom, if_neg (here ▸ Bool.false_ne_true)]
    match handled : handler request state with
    | none => trivial
    | some (.error error, middle) => trivial
    | some (.ok answer, middle) =>
      exact ih answer fun value later ran => rest value later ((run_call handled behind).trans ran)

theorem Along.first {handler : Handler Call Answer Err State} {holds : Call → State → Prop} {request : Call}
    {next : Answer request → Prog Call Answer Err Value} {state : State}
    (along : Along handler holds (.call request next) state) : holds request state := by
  rw [Along] at along
  exact along.1

theorem Along.rest {handler : Handler Call Answer Err State} {holds : Call → State → Prop} {request : Call}
    {next : Answer request → Prog Call Answer Err Value} {state later : State} {answer : Answer request}
    (along : Along handler holds (.call request next) state) (handled : handler request state = some (.ok answer, later)) :
    Along handler holds (next answer) later := by
  rw [Along, handled] at along
  exact along.2

theorem Along.from_start {handler : Handler Call Answer Err State} {starts : Call → Bool} {holds : Call → State → Prop}
    {program : Prog Call Answer Err Value} {state : State} (along : Along handler holds program state) :
    AlongFrom handler starts holds program state := by
  induction program generalizing state with
  | done value => trivial
  | fail error => trivial
  | call request next ih =>
    rw [AlongFrom]
    split
    · exact along
    · rw [Along] at along
      have behind := along.2
      match handled : handler request state with
      | none => trivial
      | some (.error error, later) => trivial
      | some (.ok answer, later) =>
        rw [handled] at behind
        exact ih answer behind

section Refusals

/-- A handler that may refuse calls. Of every call that has an answer for being refused the next
flag of a plan says whether it is; past the end of the plan none is. -/
def Handler.refusing (handler : Handler Call Answer Err State)
    (refusal : (request : Call) → Option (Except Err (Answer request))) : Handler Call Answer Err (State × List Bool) :=
  fun request state =>
    match refusal request with
    | none => (handler request state.1).map fun done => (done.1, (done.2, state.2))
    | some answer =>
        if state.2.head? = some true then some (answer, (state.1, state.2.tail))
        else (handler request state.1).map fun done => (done.1, (done.2, state.2.tail))

def Granted (refusal : (request : Call) → Option (Except Err (Answer request))) (request : Call)
    (state : State × List Bool) : Prop :=
  (refusal request).isSome = true → state.2.head? ≠ some true

theorem refusing_granted {handler : Handler Call Answer Err State}
    {refusal : (request : Call) → Option (Except Err (Answer request))} {request : Call} {state : State × List Bool}
    (granted : Granted refusal request state) :
    ∃ rest, handler.refusing refusal request state =
      (handler request state.1).map fun done => (done.1, (done.2, rest)) := by
  unfold Granted at granted
  unfold Handler.refusing
  cases can : refusal request with
  | none => exact ⟨state.2, rfl⟩
  | some answer =>
    rw [can] at granted
    exact ⟨state.2.tail, if_neg (granted rfl)⟩

theorem run_along {handler : Handler Call Answer Err State} {other : Handler Call Answer Err (State × Extra)}
    {holds : Call → State × Extra → Prop}
    (agree : ∀ request state, holds request state → ∃ rest, other request state =
      (handler request state.1).map fun done => (done.1, (done.2, rest)))
    {program : Prog Call Answer Err Value} {state : State × Extra} (along : Along other holds program state) :
    ∃ rest, run other program state = (run handler program state.1).map fun done => (done.1, (done.2, rest)) := by
  induction program generalizing state with
  | done value => exact ⟨state.2, rfl⟩
  | fail error => exact ⟨state.2, rfl⟩
  | call request next ih =>
    rw [Along] at along
    obtain ⟨here, behind⟩ := along
    obtain ⟨rest, same⟩ := agree request state here
    rw [same] at behind
    simp only [run, same]
    match ran : handler request state.1 with
    | none => exact ⟨rest, rfl⟩
    | some (.error error, later) => exact ⟨rest, rfl⟩
    | some (.ok answer, later) =>
      rw [ran] at behind
      exact ih answer behind

theorem refusing_ok {handler : Handler Call Answer Err State} {refusal : (request : Call) → Option (Except Err (Answer request))}
    (fails : ∀ request answer, refusal request = some answer → ∃ error, answer = .error error)
    {program : Prog Call Answer Err Value} {state later : State × List Bool} {value : Value}
    (ran : run (handler.refusing refusal) program state = some (.ok value, later)) :
    run handler program state.1 = some (.ok value, later.1) := by
  induction program generalizing state with
  | done value =>
    cases ran
    rfl
  | fail error => cases ran
  | call request next ih =>
    simp only [run] at ran ⊢
    by_cases granted : Granted refusal request state
    · obtain ⟨rest, same⟩ := refusing_granted granted
      rw [same] at ran
      match handled : handler request state.1 with
      | none =>
        rw [handled] at ran
        cases ran
      | some (.error error, middle) =>
        rw [handled] at ran
        cases ran
      | some (.ok answer, middle) =>
        rw [handled] at ran
        exact ih answer ran
    · obtain ⟨can, flagged⟩ := Classical.not_imp.mp granted
      obtain ⟨answer, refused⟩ := Option.isSome_iff_exists.mp can
      obtain ⟨error, rfl⟩ := fails request answer refused
      have thrown : handler.refusing refusal request state = some (.error error, (state.1, state.2.tail)) := by
        unfold Handler.refusing
        rw [refused]
        exact if_pos (Classical.not_not.mp flagged)
      rw [thrown] at ran
      cases ran

theorem refusing_nil (handler : Handler Call Answer Err State)
    (refusal : (request : Call) → Option (Except Err (Answer request))) (request : Call) (state : State) :
    handler.refusing refusal request (state, []) = (handler request state).map fun done => (done.1, (done.2, [])) := by
  unfold Handler.refusing
  cases refusal request with
  | none => rfl
  | some answer => exact if_neg (Option.some_ne_none true).symm

/-- Two handlers that agree for a plan that does not change have the same runs, and all that holds of a
call with this plan holds along them. -/
theorem run_fixed {handler : Handler Call Answer Err State} {other : Handler Call Answer Err (State × Extra)} {plan : Extra}
    (agree : ∀ request state, other request (state, plan) =
      (handler request state).map fun done => (done.1, (done.2, plan)))
    {holds : Call → State × Extra → Prop} (every : ∀ request state, holds request (state, plan))
    (program : Prog Call Answer Err Value) (state : State) :
    run other program (state, plan) = (run handler program state).map (fun done => (done.1, (done.2, plan))) ∧
      Along other holds program (state, plan) := by
  induction program generalizing state with
  | done value => exact ⟨rfl, trivial⟩
  | fail error => exact ⟨rfl, trivial⟩
  | call request next ih =>
    rw [Along]
    simp only [run, agree]
    match handler request state with
    | none => exact ⟨rfl, every request state, trivial⟩
    | some (.error error, later) => exact ⟨rfl, every request state, trivial⟩
    | some (.ok answer, later) => exact ⟨(ih answer later).1, every request state, (ih answer later).2⟩

end Refusals

section Assertions

variable {own : Err → Prop}

/-- The first program is the second with assertions: it may stop with an error of its own where the
second goes on. -/
inductive Asserts (own : Err → Prop) : Prog Call Answer Err Value → Prog Call Answer Err Value → Prop
  | done (value : Value) : Asserts own (.done value) (.done value)
  | fail (error : Err) : Asserts own (.fail error) (.fail error)
  | call {request : Call} {strict plain : Answer request → Prog Call Answer Err Value}
      (rest : ∀ answer, Asserts own (strict answer) (plain answer)) : Asserts own (.call request strict) (.call request plain)
  | stop {error : Err} (known : own error) (plain : Prog Call Answer Err Value) : Asserts own (.fail error) plain

namespace Asserts

theorem refl (program : Prog Call Answer Err Value) : Asserts own program program := by
  induction program with
  | done value => exact .done value
  | fail error => exact .fail error
  | call request next ih => exact .call ih

theorem bind {strict plain : Prog Call Answer Err Value} {strictNext plainNext : Value → Prog Call Answer Err Result}
    (first : Asserts own strict plain) (rest : ∀ value, Asserts own (strictNext value) (plainNext value)) :
    Asserts own (strict >>= strictNext) (plain >>= plainNext) := by
  induction first with
  | done value => exact rest value
  | fail error => exact .fail error
  | call behind ih => exact .call ih
  | stop known plain => exact .stop known _

theorem branch {condition : Prop} [Decidable condition] {strict plain otherStrict otherPlain : Prog Call Answer Err Value}
    (holds : Asserts own strict plain) (fails : Asserts own otherStrict otherPlain) :
    Asserts own (if condition then strict else otherStrict) (if condition then plain else otherPlain) := by
  by_cases here : condition
  · rw [if_pos here, if_pos here]
    exact holds
  · rw [if_neg here, if_neg here]
    exact fails

theorem run_eq {strict plain : Prog Call Answer Err Value} (asserts : Asserts own strict plain)
    {handler : Handler Call Answer Err State} {state : State}
    (passed : ∀ error later, run handler strict state = some (.error error, later) → ¬ own error) :
    run handler plain state = run handler strict state := by
  induction asserts generalizing state with
  | done value => rfl
  | fail error => rfl
  | stop known plain => exact absurd known (passed _ state rfl)
  | @call request strict plain rest ih =>
    simp only [run] at passed ⊢
    match handled : handler request state with
    | none => rfl
    | some (.error error, later) => rfl
    | some (.ok answer, later) =>
      rw [handled] at passed
      exact ih answer passed

end Asserts

end Assertions

/-- The program runs to an end that satisfies `post`, or to an error that satisfies `thrown`. -/
def Ensures (handler : Handler Call Answer Err State) (thrown : Err → State → Prop)
    (program : Prog Call Answer Err Value) (post : Value → State → Prop) (state : State) : Prop :=
  match run handler program state with
  | none => False
  | some (.ok value, later) => post value later
  | some (.error error, later) => thrown error later

section Rules

variable {handler : Handler Call Answer Err State} {thrown : Err → State → Prop}

@[simp] theorem ensures_done {value : Value} {post : Value → State → Prop} {state : State} :
    Ensures handler thrown (.done value) post state ↔ post value state := Iff.rfl

@[simp] theorem ensures_fail {error : Err} {post : Value → State → Prop} {state : State} :
    Ensures handler thrown (.fail error) post state ↔ thrown error state := Iff.rfl

theorem ensures_call {request : Call} {next : Answer request → Prog Call Answer Err Value}
    {post : Value → State → Prop} {state later : State} {answer : Answer request}
    (handled : handler request state = some (.ok answer, later)) :
    Ensures handler thrown (.call request next) post state ↔ Ensures handler thrown (next answer) post later := by
  simp only [Ensures, run, handled]

theorem ensures_throw {request : Call} {next : Answer request → Prog Call Answer Err Value}
    {post : Value → State → Prop} {state later : State} {error : Err}
    (handled : handler request state = some (.error error, later)) :
    Ensures handler thrown (.call request next) post state ↔ thrown error later := by
  simp only [Ensures, run, handled]

theorem ensures_bind {program : Prog Call Answer Err Value} {next : Value → Prog Call Answer Err Result}
    {post : Result → State → Prop} {state : State} :
    Ensures handler thrown (program >>= next) post state ↔
      Ensures handler thrown program (fun value => Ensures handler thrown (next value) post) state := by
  induction program generalizing state with
  | done value => rfl
  | fail error => rfl
  | call request rest ih =>
    change Ensures handler thrown (.call request fun answer => rest answer >>= next) post state ↔ _
    match handled : handler request state with
    | none => simp only [Ensures, run, handled]
    | some (.error error, later) => rw [ensures_throw handled, ensures_throw handled]
    | some (.ok answer, later) => rw [ensures_call handled, ensures_call handled, ih]

theorem Ensures.weaken {other : Err → State → Prop} {program : Prog Call Answer Err Value}
    {post wider : Value → State → Prop} {state : State} (ensures : Ensures handler thrown program post state)
    (weaker : ∀ value later, post value later → wider value later)
    (thrownWeaker : ∀ error later, thrown error later → other error later) :
    Ensures handler other program wider state := by
  unfold Ensures at ensures ⊢
  rcases outcome : run handler program state with _ | ⟨error | value, later⟩ <;>
    simp only [outcome] at ensures ⊢
  · exact thrownWeaker error later ensures
  · exact weaker value later ensures

theorem Ensures.mono {program : Prog Call Answer Err Value} {post wider : Value → State → Prop} {state : State}
    (ensures : Ensures handler thrown program post state)
    (weaker : ∀ value later, post value later → wider value later) :
    Ensures handler thrown program wider state :=
  ensures.weaken weaker fun _ _ same => same

theorem Ensures.seq {program : Prog Call Answer Err Value} {next : Value → Prog Call Answer Err Result}
    {middle : Value → State → Prop} {post : Result → State → Prop} {state : State}
    (first : Ensures handler thrown program middle state)
    (rest : ∀ value later, middle value later → Ensures handler thrown (next value) post later) :
    Ensures handler thrown (program >>= next) post state :=
  ensures_bind.mpr (first.mono rest)

theorem Ensures.plain {own : Err → Prop} {strict plain : Prog Call Answer Err Value} {post : Value → State → Prop}
    {state : State} (ensures : Ensures handler thrown strict post state) (asserts : Asserts own strict plain)
    (passed : ∀ error later, thrown error later → ¬ own error) :
    run handler plain state = run handler strict state ∧ Ensures handler thrown plain post state := by
  have same : run handler plain state = run handler strict state := by
    refine asserts.run_eq fun error later ran => passed error later ?_
    unfold Ensures at ensures
    rw [ran] at ensures
    exact ensures
  refine ⟨same, ?_⟩
  unfold Ensures at ensures ⊢
  rw [same]
  exact ensures

end Rules

end QuorumDB.Program
