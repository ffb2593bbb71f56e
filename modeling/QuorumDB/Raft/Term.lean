import QuorumDB.Raft.NodeRun

/-!
The term of a node. Whatever terms the messages carry, it never goes backwards, until an
election starts at the largest term there is.
-/

namespace QuorumDB.Raft
open Execution NetworkOrder

namespace NodeAction

def isElection : NodeAction → Bool
  | .startElection => true
  | _ => false

def Increments (node : RaftNode) (action : NodeAction) : Prop :=
  action.isElection = true ∧ node.running = true ∧ node.state ≠ .leader

def Overflows (node : RaftNode) (action : NodeAction) : Prop :=
  action.Increments node ∧ ¬ Signed 32 (node.currentTerm + 1)

def Below (node : RaftNode) (action : NodeAction) : Prop :=
  action.Increments node → node.currentTerm ≠ int32Max

end NodeAction

namespace RaftNode

variable {node later : RaftNode} {past : List RaftNode} {action : NodeAction}

/-- A step keeps the term, takes a later one from a message, or increments it. -/
theorem act_term (moved : node.act action = some later) :
    later.currentTerm = node.currentTerm ∨
    (∃ term ∈ action.term, node.currentTerm < term ∧ later.currentTerm = term) ∨
    (action.Increments node ∧ node.currentTerm < int32Max ∧ later.currentTerm = node.currentTerm + 1) := by
  have taken : ∀ {term : Int}, term ∈ action.term → node.currentTerm ≤ term → later.currentTerm = term →
      later.currentTerm = node.currentTerm ∨
      (∃ term ∈ action.term, node.currentTerm < term ∧ later.currentTerm = term) ∨
      (action.Increments node ∧ node.currentTerm < int32Max ∧ later.currentTerm = node.currentTerm + 1) := by
    intro term carried fresh now
    rcases Int.le_iff_eq_or_lt.mp fresh with same | above
    · exact .inl (now.trans same.symm)
    · exact .inr (.inl ⟨term, carried, above, now⟩)
  cases act_turn moved with
  | campaign runs free below => exact .inr (.inr ⟨⟨rfl, runs, free⟩, below, rfl⟩)
  | winAlone runs free below => exact .inr (.inr ⟨⟨rfl, runs, free⟩, below, rfl⟩)
  | vote fresh => exact taken rfl fresh rfl
  | follow fresh =>
    apply taken rfl fresh
    rw [seeLeader_eq _ fresh]
  | accept fresh matching accepted =>
    obtain ⟨commitIndex, lastApplied, commits, rfl⟩ := acceptEntries_frame accepted
    apply taken rfl fresh
    rw [seeLeader_eq _ fresh]
    rfl
  | stepDown carried above => exact taken carried (Int.le_of_lt above) rfl
  | acknowledge leads advanced =>
    obtain ⟨commitIndex, lastApplied, commits, rfl⟩ := commitScan_frame advanced
    exact .inl rfl
  | _ => exact .inl rfl

theorem act_term_le (moved : node.act action = some later) : node.currentTerm ≤ later.currentTerm := by
  rcases act_term moved with same | ⟨term, -, above, now⟩ | ⟨-, -, now⟩
  · exact Int.le_of_eq same.symm
  · exact now ▸ Int.le_of_lt above
  · exact now ▸ Int.le_of_lt (Int.lt_succ _)

theorem act_term_fits (moved : node.act action = some later) (typed : action.Typed)
    (fits : node.currentTerm ≤ int32Max) : later.currentTerm ≤ int32Max := by
  rcases act_term moved with same | ⟨term, carried, -, now⟩ | ⟨-, below, now⟩
  · exact same ▸ fits
  · exact now ▸ Int.le_of_lt_add_one (typed.term carried).2
  · exact now ▸ Int.add_one_le_of_lt below

theorem overflows_iff (low : 0 ≤ node.currentTerm) (high : node.currentTerm ≤ int32Max) :
    action.Overflows node ↔ ¬ action.Below node := by
  have bound : ¬ Signed 32 (node.currentTerm + 1) ↔ node.currentTerm = int32Max := by
    unfold Signed int32Max at *
    omega
  unfold NodeAction.Overflows NodeAction.Below
  rw [bound, Classical.not_imp, not_not]

theorem act_startElection_none (low : 0 ≤ node.currentTerm) (high : node.currentTerm ≤ int32Max) :
    node.act .startElection = none ↔ NodeAction.startElection.Overflows node := by
  have undefined : node.act .startElection = none ↔ node.startElection = none := Option.map_eq_none_iff
  rw [overflows_iff low high, undefined]
  unfold NodeAction.Below NodeAction.Increments startElection
  split_ifs with idle full majority
  · refine iff_of_false not_false (not_not.mpr fun increments => ?_)
    rcases idle with stopped | leads
    · exact absurd (stopped.symm.trans increments.2.1) Bool.false_ne_true
    · exact absurd leads increments.2.2
  · obtain ⟨stopped, leads⟩ := not_or.mp idle
    refine iff_of_true rfl fun below => ?_
    exact below ⟨rfl, Bool.eq_true_of_not_eq_false stopped, leads⟩ (Int.le_antisymm high full)
  · exact iff_of_false not_false (not_not.mpr fun increments same => full (Int.le_of_eq same.symm))
  · exact iff_of_false not_false (not_not.mpr fun increments same => full (Int.le_of_eq same.symm))

/-- The steps of a node, when an overflow may lead anywhere. -/
def TermStep (node : RaftNode) (action : NodeAction) (later : RaftNode) : Prop :=
  action.Typed ∧ (node.act action = some later ∨ action.Overflows node) ∧ later.log.length < 2 ^ 63

def BelowStep (node : RaftNode) (action : NodeAction) (later : RaftNode) : Prop :=
  TermStep node action later ∧ action.Below node

/-- The term never goes backwards in a run in which no election starts at the largest term. From
there only such an election overflows, and it has no result. -/
theorem term_never_decreases (run : Run Initial BelowStep past node) :
    (∀ earlier ∈ past, earlier.currentTerm ≤ node.currentTerm) ∧ 0 ≤ node.currentTerm ∧ node.currentTerm ≤ int32Max ∧
      (∀ action : NodeAction, action.Overflows node ↔ ¬ action.Below node) ∧
      (node.act .startElection = none ↔ NodeAction.startElection.Overflows node) := by
  have rises : (∀ earlier ∈ past, earlier.currentTerm ≤ node.currentTerm) ∧ 0 ≤ node.currentTerm ∧
      node.currentTerm ≤ int32Max := by
    induction run with
    | start fresh =>
      obtain ⟨nodeId, peers, onCommit, -, rfl⟩ := fresh
      exact ⟨(fun earlier inside => nomatch inside), Int.le_refl 0, (by decide : (0 : Int) ≤ int32Max)⟩
    | next before step ih =>
      obtain ⟨rises, low, high⟩ := ih
      obtain ⟨⟨typed, moved | overflows, -⟩, below⟩ := step
      · have more := act_term_le moved
        refine ⟨fun earlier inside => ?_, low.trans more, act_term_fits moved typed high⟩
        rcases List.mem_cons.mp inside with rfl | older
        · exact more
        · exact (rises earlier older).trans more
      · exact absurd below ((overflows_iff low high).mp overflows)
  obtain ⟨rises, low, high⟩ := rises
  exact ⟨rises, low, high, fun action => overflows_iff low high, act_startElection_none low high⟩

/-- A vote is asked for in term 3, and an election started. -/
theorem term_never_decreases_election : ∃ past node, Run Initial BelowStep past node ∧ node.currentTerm = 4 ∧
    ∀ earlier ∈ past, earlier.currentTerm ≤ node.currentTerm := by
  have fresh : Run Initial BelowStep [] (new 1 [2] true) := .start ⟨1, [2], true, by decide, rfl⟩
  have started : BelowStep (new 1 [2] true) .start _ := ⟨⟨trivial, .inl rfl, by decide⟩, fun increments => nomatch increments.1⟩
  have asked : BelowStep (new 1 [2] true).start (.requestVote 3 2) _ :=
    ⟨⟨⟨by decide, by decide⟩, .inl rfl, by decide⟩, fun increments => nomatch increments.1⟩
  have elected : BelowStep ((new 1 [2] true).start.handleRequestVote 3 2).1 .startElection _ :=
    ⟨⟨trivial, .inl rfl, by decide⟩, fun _ => by decide⟩
  have run := ((fresh.next started).next asked).next elected
  exact ⟨_, _, run, rfl, (term_never_decreases run).1⟩

/-- A message asks for a vote in the largest term, and the next election overflows. -/
theorem term_never_decreases_fails : ¬ ∀ past node, Run Initial TermStep past node →
    (∀ earlier ∈ past, earlier.currentTerm ≤ node.currentTerm) ∧ ∀ action : NodeAction, ¬ action.Overflows node := by
  intro claim
  have fresh : Run Initial TermStep [] (new 1 [2] true) := .start ⟨1, [2], true, by decide, rfl⟩
  have started : TermStep (new 1 [2] true) .start _ := ⟨trivial, .inl rfl, by decide⟩
  have asked : TermStep (new 1 [2] true).start (.requestVote int32Max 2) _ := ⟨⟨by decide, by decide⟩, .inl rfl, by decide⟩
  obtain ⟨-, never⟩ := claim _ _ ((fresh.next started).next asked)
  exact never .startElection ⟨⟨rfl, rfl, by decide⟩, by decide⟩

end RaftNode

end QuorumDB.Raft
