import QuorumDB.Lib.Execution

/-!
When something last happened in an execution, and queues in that order: an element comes
to the front when its event happens, and apart from that elements only leave.
-/

namespace QuorumDB.Execution

variable {State Action Element : Type} (happens : Element → State → State → Prop)
  [∀ element, DecidableRel (happens element)]

def lastTime (element : Element) : List State → Option Nat
  | later :: before :: older =>
      if happens element before later then some older.length else lastTime element (before :: older)
  | _ => none

/-- Both happened, and the last time for `first` is the earlier one. -/
def Earlier (states : List State) (first second : Element) : Prop :=
  ∃ one two, lastTime happens first states = some one ∧ lastTime happens second states = some two ∧ one < two

/-- The queue has its elements by the last time, latest first. -/
structure ByRecency (states : List State) (queue : List Element) : Prop where
  happened : ∀ element ∈ queue, ∃ time, lastTime happens element states = some time
  sorted : queue.Pairwise fun late early => Earlier happens states early late

inductive Turn (now : Element → Prop) (before after : List Element) : Prop where
  | front (element : Element) (comes : now element) (quiet : ∀ other ∈ before, ¬ now other)
      (same : after = element :: before)
  | leave (sublist : after.Sublist before) (quiet : ∀ other ∈ after, ¬ now other)

variable {happens} {before later : State} {older states : List State} {queue next : List Element} {element other : Element}

theorem lastTime_now (now : happens element before later) :
    lastTime happens element (later :: before :: older) = some older.length := if_pos now

theorem lastTime_quiet (quiet : ¬ happens element before later) :
    lastTime happens element (later :: before :: older) = lastTime happens element (before :: older) := if_neg quiet

theorem lastTime_lt {time : Nat} (last : lastTime happens element states = some time) : time + 1 < states.length := by
  induction states with
  | nil => cases last
  | cons later older ih =>
    cases older with
    | nil => cases last
    | cons before older =>
      by_cases now : happens element before later
      · rw [lastTime_now now] at last
        cases last
        exact Nat.lt_succ_self _
      · rw [lastTime_quiet now] at last
        exact Nat.lt_succ_of_lt (ih last)

theorem ByRecency.quiet (recency : ByRecency happens (before :: older) queue)
    (quiet : ∀ other ∈ queue, ¬ happens other before later) : ByRecency happens (later :: before :: older) queue := by
  have same : ∀ other ∈ queue,
      lastTime happens other (later :: before :: older) = lastTime happens other (before :: older) :=
    fun other inside => lastTime_quiet (quiet other inside)
  refine ⟨fun other inside => ?_, recency.sorted.imp_of_mem fun {late early} lateInside earlyInside earlier => ?_⟩
  · rw [same other inside]
    exact recency.happened other inside
  · obtain ⟨one, two, first, second, less⟩ := earlier
    exact ⟨one, two, (same early earlyInside).trans first, (same late lateInside).trans second, less⟩

theorem ByRecency.sublist (recency : ByRecency happens states queue) (sublist : next.Sublist queue) : ByRecency happens states next :=
  ⟨fun other inside => recency.happened other (sublist.subset inside), recency.sorted.sublist sublist⟩

theorem ByRecency.front (recency : ByRecency happens (later :: before :: older) queue)
    (quiet : ∀ other ∈ queue, ¬ happens other before later) (now : happens element before later) :
    ByRecency happens (later :: before :: older) (element :: queue) := by
  have here := @lastTime_now _ _ _ _ _ _ older _ now
  refine ⟨List.forall_mem_cons.mpr ⟨⟨_, here⟩, recency.happened⟩,
    List.pairwise_cons.mpr ⟨fun other inside => ?_, recency.sorted⟩⟩
  obtain ⟨time, last⟩ := recency.happened other inside
  have less := last
  rw [lastTime_quiet (quiet other inside)] at less
  exact ⟨time, older.length, last, here, Nat.lt_of_succ_lt_succ (lastTime_lt less)⟩

theorem ByRecency.turn (recency : ByRecency happens (before :: older) queue)
    (turn : Turn (happens · before later) queue next) : ByRecency happens (later :: before :: older) next := by
  cases turn with
  | front element comes quiet same =>
    subst same
    exact (recency.quiet quiet).front quiet comes
  | leave sublist quiet => exact (recency.sublist sublist).quiet quiet

theorem ByRecency.oldest (recency : ByRecency happens states queue) (last : queue.getLast? = some element)
    (inside : other ∈ queue) (different : other ≠ element) : Earlier happens states element other := by
  obtain ⟨front, rfl⟩ := List.getLast?_eq_some_iff.mp last
  have ahead := (List.mem_append.mp inside).resolve_right fun here => different (List.mem_singleton.mp here)
  exact (List.pairwise_append.mp recency.sorted).2.2 other ahead element (List.mem_singleton_self element)

theorem Run.byRecency {initial : State → Prop} {step : State → Action → State → Prop} {queue : State → List Element}
    (base : ∀ state, initial state → queue state = [])
    (turns : ∀ past state action later, Run initial step past state → step state action later →
      Turn (happens · state later) (queue state) (queue later))
    {past : List State} {state : State} (run : Run initial step past state) :
    ByRecency happens (state :: past) (queue state) := by
  induction run with
  | start fresh =>
    rw [base _ fresh]
    exact ⟨nofun, .nil⟩
  | next before move ih => exact ih.turn (turns _ _ _ _ before move)

end QuorumDB.Execution
