import QuorumDB.Raft.Commit

/-!
State machine safety. A vote says nothing about the logs of the two nodes and an
acknowledgement nothing about its term, so the result is about executions whose
votes go to candidates with a log at least as up to date and whose leaders take
acknowledgements of their own term only. All facts about the past are stated
against a book of term lists that may already have grown further.
-/

namespace QuorumDB.Raft
open Execution Quorum TermLog
open RaftNode (placeEntries)

def lastTerm (log : List LogEntry) : Int :=
  match log.getLast? with
  | some entry => entry.term
  | none => -1

/-- The order in which logs are compared for a vote: last term first, then length. -/
def UpToDate (voter candidate : List LogEntry) : Prop :=
  lastTerm voter < lastTerm candidate ∨
    lastTerm voter = lastTerm candidate ∧ voter.length ≤ candidate.length

instance (voter candidate : List LogEntry) : Decidable (UpToDate voter candidate) :=
  inferInstanceAs (Decidable (_ ∨ _))

def VoteFree (node : RaftNode) (request : RpcMessage) : Prop :=
  node.currentTerm < request.term ∨ node.currentTerm = request.term ∧
    (node.votedFor = -1 ∨ node.votedFor = request.senderId)

instance (node : RaftNode) (request : RpcMessage) : Decidable (VoteFree node request) :=
  inferInstanceAs (Decidable (_ ∨ _))

/-- A vote given to a node that is still campaigning for it goes to a log at least as up to date. -/
def CarefulVote (cluster : Cluster) : Packet → Prop
  | .voteRequest target request =>
      VoteFree (cluster.node target) request →
      (cluster.node request.senderId).state = .candidate →
      (cluster.node request.senderId).currentTerm = request.term →
      UpToDate (cluster.node target).log (cluster.node request.senderId).log
  | _ => True

instance (cluster : Cluster) : (packet : Packet) → Decidable (CarefulVote cluster packet)
  | .voteRequest .. => inferInstanceAs (Decidable (_ → _))
  | .voteReply .. | .appendRequest .. | .appendReply .. => inferInstanceAs (Decidable True)

def CarefulVotes (cluster : Cluster) (action : Action) : Prop :=
  ∀ packet ∈ cluster.delivered action, CarefulVote cluster packet

instance (cluster : Cluster) (action : Action) : Decidable (CarefulVotes cluster action) :=
  inferInstanceAs (Decidable (∀ packet ∈ _, _))

/-- Both the vote and the acknowledgement a step takes are in order. -/
def Careful (cluster : Cluster) (action : Action) : Prop :=
  CurrentReplies cluster action ∧ CarefulVotes cluster action

instance (cluster : Cluster) (action : Action) : Decidable (Careful cluster action) :=
  inferInstanceAs (Decidable (_ ∧ _))

abbrev CarefulStep : Cluster → Action → Cluster → Prop := Cluster.StepWhen Careful

abbrev CarefullyReaches : List Cluster → Cluster → Prop := Cluster.ReachesWhen Careful

theorem CarefullyReaches.currently {past : List Cluster} {cluster : Cluster}
    (run : CarefullyReaches past cluster) : CurrentlyReaches past cluster :=
  run.mono fun _ action _ step => ⟨action, step.1, step.2.1⟩

structure Extends (visited : List Cluster) (book : Int → List LogEntry) : Prop where
  grows : ∀ term, termLog visited term <+: book term
  bounded : Bounded LogEntry.term book

/-- The book's list for `term` has at `n` an entry made in `term`. -/
def OwnEntry (book : Int → List LogEntry) (term : Int) (n : Nat) : Prop :=
  ∃ entry, (book term)[n]? = some entry ∧ entry.term = term

/-- Some later term up to `limit` had a leader whose list misses the list of `term` up to `n`. -/
def Lost (visited : List Cluster) (book : Int → List LogEntry) (term : Int) (n : Nat) (limit : Int) : Prop :=
  ∃ between, term < between ∧ between ≤ limit ∧ termLog visited between ≠ [] ∧
    ¬ (book term).take (n + 1) <+: book between

theorem Lost.raise {visited : List Cluster} {book : Int → List LogEntry} {term limit higher : Int} {n : Nat}
    (lost : Lost visited book term n limit) (raised : limit ≤ higher) : Lost visited book term n higher := by
  obtain ⟨between, above, below, facts⟩ := lost
  exact ⟨between, above, below.trans raised, facts⟩

theorem Lost.below {visited : List Cluster} {book : Int → List LogEntry} {term limit : Int} {n : Nat}
    (lost : Lost visited book term n limit) (empty : termLog visited limit = []) :
    Lost visited book term n (limit - 1) := by
  obtain ⟨between, above, below, filled, missing⟩ := lost
  have different : between ≠ limit := by
    intro same
    rw [same] at filled
    exact filled empty
  exact ⟨between, above, by omega, filled, missing⟩

theorem lastTerm_eq {log : List LogEntry} (filled : log ≠ []) :
    ∃ entry, log[log.length - 1]? = some entry ∧ lastTerm log = entry.term := by
  refine ⟨log.getLast filled, ?_, ?_⟩
  · rw [← List.getLast?_eq_getElem?, List.getLast?_eq_getLast_of_ne_nil filled]
  · rw [lastTerm, List.getLast?_eq_getLast_of_ne_nil filled]

section UpToDate

variable {book : Int → List LogEntry} {log voter candidate : List LogEntry}

theorem coherent_last (coherent : Coherent LogEntry.term book log) (filled : log ≠ []) :
    log <+: book (lastTerm log) := by
  obtain ⟨entry, found, same⟩ := lastTerm_eq filled
  have listed := coherent _ entry found
  have positive := List.length_pos_of_ne_nil filled
  rw [List.take_of_length_le (by omega)] at listed
  rw [same]
  exact listed

theorem term_le_last (coherent : Coherent LogEntry.term book log) (bounded : Bounded LogEntry.term book)
    {position : Nat} {entry : LogEntry} (found : log[position]? = some entry) : entry.term ≤ lastTerm log := by
  have filled : log ≠ [] := List.ne_nil_of_mem (List.mem_of_getElem? found)
  exact bounded _ entry ((coherent_last coherent filled).subset (List.mem_of_getElem? found))

/-- What a voter holds, a candidate at least as up to date holds too, unless a term
in between lost it. -/
theorem upToDate_carries (bounded : Bounded LogEntry.term book)
    (voterCoherent : Coherent LogEntry.term book voter)
    (candidateCoherent : Coherent LogEntry.term book candidate) (filled : candidate ≠ [])
    {term : Int} {n : Nat} (own : OwnEntry book term n) (holds : (book term).take (n + 1) <+: voter)
    (upToDate : UpToDate voter candidate) :
    (book term).take (n + 1) <+: candidate ∨
      term < lastTerm candidate ∧ ¬ (book term).take (n + 1) <+: book (lastTerm candidate) := by
  obtain ⟨entry, found, made⟩ := own
  have inVoter : voter[n]? = some entry :=
    getElem?_mono holds (getElem?_take_succ.trans found)
  have voterFilled : voter ≠ [] := List.ne_nil_of_mem (List.mem_of_getElem? inVoter)
  have reaches : term ≤ lastTerm voter := made ▸ term_le_last voterCoherent bounded inVoter
  have listed := coherent_last candidateCoherent filled
  rcases upToDate with later | ⟨level, longer⟩
  · by_cases kept : (book term).take (n + 1) <+: book (lastTerm candidate)
    · left
      rcases List.prefix_or_prefix_of_prefix kept listed with done | short
      · exact done
      · -- the last entry of a shorter log would be older than it is
        obtain ⟨last, atEnd, same⟩ := lastTerm_eq filled
        have inTerm := (short.trans (List.take_prefix _ _)).subset (List.mem_of_getElem? atEnd)
        have old := bounded term last inTerm
        omega
    · exact .inr ⟨by omega, kept⟩
  · left
    have voterListed := coherent_last voterCoherent voterFilled
    rw [level] at voterListed
    exact holds.trans (List.prefix_of_prefix_length_le voterListed listed longer)

end UpToDate

theorem RaftNode.seeLeader_vote {node : RaftNode} {term : Int} (leader : Int)
    (fresh : node.currentTerm ≤ term) :
    (node.seeLeader term leader).currentTerm = term ∧
      ((node.seeLeader term leader).votedFor = -1 ∨
        (node.seeLeader term leader).votedFor = node.votedFor ∧ term = node.currentTerm) := by
  rw [seeLeader_eq _ fresh]
  refine ⟨rfl, ?_⟩
  by_cases above : term > node.currentTerm
  · exact .inl (if_pos above)
  · exact .inr ⟨if_neg above, by omega⟩

section Step

variable {past : List Cluster} {cluster later : Cluster} {action : Action} {book : Int → List LogEntry}

theorem Extends.earlier (before : Cluster.Reaches past cluster) (step : Cluster.Step cluster action later)
    (extends_later : Extends (later :: cluster :: past) book) : Extends (cluster :: past) book :=
  ⟨fun term => (termLog_grows before step term).trans (extends_later.grows term), extends_later.bounded⟩

theorem Lost.grow (before : Cluster.Reaches past cluster) (step : Cluster.Step cluster action later)
    {term limit : Int} {n : Nat} (lost : Lost (cluster :: past) book term n limit) :
    Lost (later :: cluster :: past) book term n limit := by
  obtain ⟨between, above, below, filled, missing⟩ := lost
  refine ⟨between, above, below, fun empty => filled ?_, missing⟩
  have grows := termLog_grows before step between
  rw [empty, List.prefix_nil] at grows
  exact grows

theorem Held.before {term : Int} {voter : Int} {n : Nat}
    (held : Held (later :: cluster :: past) book voter term n)
    (passed : term < (later.node voter).currentTerm) : Held (cluster :: past) book voter term n := by
  obtain ⟨inside, earlier, seen, level, holds⟩ := held
  rcases List.mem_cons.mp seen with rfl | inPast
  · omega
  · exact ⟨inside, earlier, inPast, level, holds⟩

theorem Held.term_le (run : Cluster.Reaches past cluster) {term : Int} {voter : Int} {n : Nat}
    (held : Held (cluster :: past) book voter term n) : term ≤ (cluster.node voter).currentTerm := by
  obtain ⟨-, earlier, seen, level, -⟩ := held
  rcases List.mem_cons.mp seen with rfl | inPast
  · exact level.ge
  · rw [← level]
    exact (membership run.loosely).terms earlier inPast voter

theorem repair_keeps {old stretch kept : List LogEntry}
    (repaired : (stretch <+: old ∧ kept = old) ∨ (¬ stretch <+: old ∧ kept = stretch))
    {held list : List LogEntry} (holds : held <+: old) (listed : held <+: list) (taken : stretch <+: list) :
    held <+: kept := by
  rcases repaired with ⟨-, rfl⟩ | ⟨lost, rfl⟩
  · exact holds
  · rcases List.prefix_or_prefix_of_prefix listed taken with done | short
    · exact done
    · exact absurd (short.trans holds) lost

def KeepInv (past : List Cluster) (cluster : Cluster) : Prop :=
  ∀ book, Extends (cluster :: past) book → ∀ voter ∈ cluster.members, ∀ term n,
    Held (cluster :: past) book voter term n →
      (book term).take (n + 1) <+: (cluster.node voter).log ∨
        Lost (cluster :: past) book term n (cluster.node voter).currentTerm

theorem keepInv_step (before : Cluster.Reaches past cluster) (step : Cluster.Step cluster action later)
    (known : KeepInv past cluster) : KeepInv (cluster :: past) later := by
  intro book extending voter member term n held
  have effect := Cluster.step_effect step
  have earlier := extending.earlier before step
  have inCluster : voter ∈ cluster.members := effect.members ▸ member
  obtain ⟨inside, state, seen, level, holds⟩ := held
  rcases List.mem_cons.mp seen with rfl | inPast
  · exact .inl holds
  · have old : Held (cluster :: past) book voter term n := ⟨inside, state, inPast, level, holds⟩
    have reached := old.term_le before
    have move := (effect.move voter).log
    have grows := move.term_le
    rcases known book earlier voter inCluster term n old with kept | lost
    · cases move with
      | keep log =>
        rw [log]
        exact .inl kept
      | elect log =>
        rw [log]
        exact .inl kept
      | extend command leads after_leads same log =>
        rw [log]
        exact .inl (kept.trans (List.prefix_append _ _))
      | repair inFlight same follows matching log =>
        obtain ⟨m, -, bound, repaired⟩ := (logInv before).repaired inCluster inFlight matching log
        have taken := (List.take_prefix (m + 1) _).trans (earlier.grows (later.node voter).currentTerm)
        by_cases own : term = (later.node voter).currentTerm
        · left
          refine repair_keeps repaired kept (List.take_prefix _ _) ?_
          rw [own]
          exact taken
        · by_cases listed : (book term).take (n + 1) <+: book (later.node voter).currentTerm
          · exact .inl (repair_keeps repaired kept listed taken)
          · refine .inr (Lost.grow before step ⟨_, by omega, le_refl _, ?_, listed⟩)
            exact List.ne_nil_of_length_pos (by omega)
    · exact .inr ((lost.grow before step).raise grows)

theorem keepInv (run : Cluster.Reaches past cluster) : KeepInv past cluster := by
  apply run.invariant
  · intro cluster fresh book extending voter member term n held
    obtain ⟨inside, state, seen, level, holds⟩ := held
    rw [List.mem_singleton] at seen
    subst seen
    exact .inl holds
  · exact fun _ _ _ _ before known step => keepInv_step before step known

structure AskInv (past : List Cluster) (cluster : Cluster) : Prop where
  requests : ∀ target request, .voteRequest target request ∈ cluster.net →
    request.senderId ∈ cluster.members ∧ request.term ≤ (cluster.node request.senderId).currentTerm
  votes : ∀ voter ∈ cluster.members, ∀ term candidate, candidate ≠ -1 →
    VotedIn (cluster :: past) voter term candidate → term ≤ (cluster.node candidate).currentTerm

theorem newly_voted {voter term candidate : Int} (real : candidate ≠ -1)
    (before : Cluster.Reaches past cluster) (step : Cluster.Step cluster action later)
    (member : voter ∈ cluster.members)
    (voted : VotedIn (later :: cluster :: past) voter term candidate) :
    VotedIn (cluster :: past) voter term candidate ∨
    (voter = candidate ∧ (cluster.node voter).currentTerm < term ∧ term = (later.node voter).currentTerm) ∨
    ∃ request, cluster.delivered action = some (.voteRequest voter request) ∧
      .voteRequest voter request ∈ cluster.net ∧ VoteFree (cluster.node voter) request ∧
      request.term = term ∧ request.senderId = candidate := by
  rcases voted_split voted with ⟨level, vote⟩ | old
  · have move := (Cluster.step_effect step).move voter
    have identity := (membership before.loosely).identity voter member
    generalize later.node voter = node at move level vote ⊢
    have unchanged : node.currentTerm = (cluster.node voter).currentTerm →
        node.votedFor = (cluster.node voter).votedFor → VotedIn (cluster :: past) voter term candidate :=
      fun sameTerm sameVote => ⟨cluster, List.mem_cons_self, sameTerm ▸ level, sameVote ▸ vote⟩
    cases move with
    | start =>
      rcases RaftNode.start_cases (cluster.node voter) with same | same <;> rw [same] at unchanged <;>
        exact .inl (unchanged rfl rfl)
    | propose leads =>
      rw [RaftNode.propose_leader leads] at unchanged
      exact .inl (unchanged rfl rfl)
    | campaign free => exact .inr (.inl ⟨identity.symm.trans vote, level ▸ Int.lt_succ _, level.symm⟩)
    | winAlone free majority =>
      exact .inr (.inl ⟨identity.symm.trans vote, level ▸ Int.lt_succ _, level.symm⟩)
    | @vote request delivers inFlight fresh free =>
      refine .inr (.inr ⟨request, delivers, inFlight, ?_, level, vote⟩)
      rcases free with above | rest
      · exact .inl above
      · rcases fresh.lt_or_eq with above | same
        · exact .inl above
        · exact .inr ⟨same, rest⟩
    | stepDown above => exact absurd vote.symm real
    | follow inFlight fresh =>
      obtain ⟨sameTerm, none_cast | ⟨sameVote, levelTerm⟩⟩ := RaftNode.seeLeader_vote _ fresh
      · exact absurd (none_cast.symm.trans vote) real.symm
      · exact .inl (unchanged (sameTerm.trans levelTerm) sameVote)
    | accept inFlight fresh matching ran =>
      obtain ⟨-, -, keptTerm, keptVote⟩ := RaftNode.acceptEntries_ballot ran
      obtain ⟨sameTerm, none_cast | ⟨sameVote, levelTerm⟩⟩ := RaftNode.seeLeader_vote _ fresh
      · exact absurd ((keptVote.trans none_cast).symm.trans vote) real.symm
      · exact .inl (unchanged (keptTerm.trans (sameTerm.trans levelTerm)) (keptVote.trans sameVote))
    | acknowledge delivers inFlight leads runs current typed accepted ran =>
      obtain ⟨-, -, sameTerm, sameVote, -⟩ := RaftNode.advance_ballot ran
      exact .inl (unchanged sameTerm sameVote)
    | _ => exact .inl (unchanged rfl rfl)
  · exact .inl old

theorem askInv_step (before : Cluster.Reaches past cluster) (step : Cluster.Step cluster action later)
    (known : AskInv past cluster) : AskInv (cluster :: past) later := by
  have effect := Cluster.step_effect step
  have grows := fun id => (effect.move id).ballot.term_le
  refine ⟨?_, ?_⟩
  · intro target request inFlight
    rw [effect.members]
    rcases effect.sent inFlight with old | sent
    · obtain ⟨member, reached⟩ := known.requests _ _ old
      exact ⟨member, reached.trans (grows _)⟩
    · cases sent with
      | @voteRequest id peer member sender listed =>
        have identity : (later.node id).nodeId = id :=
          (effect.move id).identity.nodeId.trans ((membership before.loosely).identity id member)
        simp only [identity]
        exact ⟨member, le_refl _⟩
  · intro voter member term candidate real voted
    rw [effect.members] at member
    rcases newly_voted real before step member voted with
      old | ⟨rfl, -, current⟩ | ⟨request, -, inFlight, -, rfl, rfl⟩
    · exact (known.votes voter member term candidate real old).trans (grows candidate)
    · exact current.le
    · exact (known.requests _ _ inFlight).2.trans (grows _)

theorem askInv (run : Cluster.Reaches past cluster) : AskInv past cluster := by
  apply run.invariant
  · intro cluster fresh
    obtain ⟨-, unlisted, quiet, nodes⟩ := fresh
    refine ⟨?_, ?_⟩
    · intro target request inFlight
      rw [quiet] at inFlight
      cases inFlight
    · rintro voter member term candidate real ⟨state, seen, -, vote⟩
      rw [List.mem_singleton] at seen
      subst seen
      obtain ⟨peers, onCommit, shape, -⟩ := nodes voter member
      rw [shape] at vote
      exact absurd vote.symm real
  · exact fun _ _ _ _ before known step => askInv_step before step known

/-- While a candidate may still win, it holds what its voters held before they voted,
unless a later leader's list misses it. -/
def VoteInv (past : List Cluster) (cluster : Cluster) : Prop :=
  ∀ book, Extends (cluster :: past) book → ∀ candidate ∈ cluster.members,
    (cluster.node candidate).state = .candidate →
    termLog (cluster :: past) (cluster.node candidate).currentTerm = [] →
    ∀ voter ∈ cluster.members,
      VotedIn (cluster :: past) voter (cluster.node candidate).currentTerm candidate →
      ∀ term n, term < (cluster.node candidate).currentTerm → OwnEntry book term n →
        Held (cluster :: past) book voter term n →
          (book term).take (n + 1) <+: (cluster.node candidate).log ∨
            Lost (cluster :: past) book term n (cluster.node candidate).currentTerm

theorem candidate_move {id : Int} (move : cluster.Move (cluster.delivered action) id (later.node id))
    (campaigns : (later.node id).state = .candidate) :
    (later.node id).log = (cluster.node id).log ∧
      ((cluster.node id).currentTerm < (later.node id).currentTerm ∨
        (cluster.node id).state = .candidate ∧
          (later.node id).currentTerm = (cluster.node id).currentTerm) := by
  refine ⟨?_, ?_⟩
  · cases move.log with
    | keep log => exact log
    | elect log => exact log
    | extend command leads after_leads =>
      rw [after_leads] at campaigns
      cases campaigns
    | repair inFlight term follows =>
      rw [follows] at campaigns
      cases campaigns
  · cases move.ballot with
    | follow follows =>
      rw [follows] at campaigns
      cases campaigns
    | hold state term => exact .inr ⟨state.symm.trans campaigns, term⟩
    | campaign term => exact .inl term
    | count campaigning term => exact .inr ⟨campaigning, term⟩

theorem careful_vote (before : Cluster.Reaches past cluster) (careful : CarefulVotes cluster action)
    (extending : Extends (cluster :: past) book) {voter term : Int} {n : Nat} {request : RpcMessage}
    (member : voter ∈ cluster.members) (delivers : cluster.delivered action = some (.voteRequest voter request))
    (free : VoteFree (cluster.node voter) request)
    (candidate : request.senderId ∈ cluster.members)
    (campaigns : (cluster.node request.senderId).state = .candidate)
    (current : (cluster.node request.senderId).currentTerm = request.term)
    (own : OwnEntry book term n) (held : Held (cluster :: past) book voter term n) :
    (book term).take (n + 1) <+: (cluster.node request.senderId).log ∨
      Lost (cluster :: past) book term n request.term := by
  have logs := (logInv before).logs
  rcases keepInv before book extending voter member term n held with kept | lost
  · have voterLog := (logs voter member).coherent.mono extending.grows
    have good := logs request.senderId candidate
    have filled : (cluster.node request.senderId).log ≠ [] :=
      List.ne_nil_of_length_pos good.head.length_le
    rcases upToDate_carries extending.bounded voterLog (good.coherent.mono extending.grows) filled own kept
      (careful _ delivers free campaigns current) with carried | ⟨later_term, missing⟩
    · exact .inl carried
    · obtain ⟨entry, found, same⟩ := lastTerm_eq filled
      have listed := coherent_last good.coherent filled
      refine .inr ⟨_, later_term, ?_, ?_, missing⟩
      · rw [same, ← current]
        exact good.bounded entry (List.mem_of_getElem? found)
      · intro empty
        rw [empty, List.prefix_nil] at listed
        exact filled listed
  · refine .inr (lost.raise ?_)
    rcases free with above | ⟨level, -⟩
    · exact above.le
    · exact level.le

theorem voteInv_step (before : Cluster.Reaches past cluster) (step : Cluster.Step cluster action later)
    (careful : CarefulVotes cluster action) (known : VoteInv past cluster) :
    VoteInv (cluster :: past) later := by
  intro book extending candidate member campaigns leaderless voter voterMember voted term n below own held
  have run : Cluster.Reaches (cluster :: past) later := .next before step
  have effect := Cluster.step_effect step
  have earlier := extending.earlier before step
  rw [effect.members] at member voterMember
  have real : candidate ≠ -1 := by
    intro same
    exact (membership before.loosely).unlisted (same ▸ member)
  have reached : (later.node candidate).currentTerm ≤ (later.node voter).currentTerm := by
    rcases (ballot run.loosely).standing _ _ _ real voted with passed | ⟨level, -⟩ <;> omega
  have old := held.before (by omega)
  obtain ⟨log, start⟩ := candidate_move (effect.move candidate) campaigns
  have leaderlessBefore : termLog (cluster :: past) (later.node candidate).currentTerm = [] := by
    have grows := termLog_grows before step (later.node candidate).currentTerm
    rw [leaderless, List.prefix_nil] at grows
    exact grows
  have asked := askInv before
  rw [log]
  have conclude : (book term).take (n + 1) <+: (cluster.node candidate).log ∨
      Lost (cluster :: past) book term n (later.node candidate).currentTerm := by
    rcases newly_voted real before step voterMember voted with
      votedBefore | ⟨rfl, above, -⟩ | ⟨request, delivers, inFlight, free, current, rfl⟩
    · rcases start with above | ⟨campaigning, level⟩
      · have bound := asked.votes voter voterMember _ _ real votedBefore
        omega
      · rw [level] at votedBefore below leaderlessBefore ⊢
        exact known book earlier candidate member campaigning leaderlessBefore voter voterMember
          votedBefore term n below own old
    · exact (keepInv before book earlier voter member term n old).imp_right fun lost => lost.raise above.le
    · rcases start with above | ⟨campaigning, level⟩
      · have bound := (asked.requests _ _ inFlight).2
        omega
      · rw [← current]
        exact careful_vote before careful earlier voterMember delivers free member campaigning
          (level.symm.trans current.symm) own old
  exact conclude.imp_right fun lost => lost.grow before step

theorem voteInv (run : CarefullyReaches past cluster) : VoteInv past cluster := by
  apply run.invariant
  · intro cluster fresh book extending candidate member campaigns
    obtain ⟨peers, onCommit, shape, -⟩ := fresh.2.2.2 candidate member
    rw [shape] at campaigns
    cases campaigns
  · intro past cluster action later before known step
    exact voteInv_step (Cluster.ReachesWhen.reaches before) step.1 step.2.2 known

/-- A leader's list starts with what an earlier leader of its own term put in, or a majority
had not held that, or had lost it. -/
def LeadInv (past : List Cluster) (cluster : Cluster) : Prop :=
  ∀ book, Extends (cluster :: past) book → ∀ leading, termLog (cluster :: past) leading ≠ [] →
    ∀ term n, 0 ≤ term → term < leading → OwnEntry book term n →
      (book term).take (n + 1) <+: book leading ∨
      ∃ quorum, Majority cluster.members quorum ∧ ∀ voter ∈ quorum,
        term < (cluster.node voter).currentTerm ∧
          (Held (cluster :: past) book voter term n → Lost (cluster :: past) book term n (leading - 1))

/-- How a term gets its first leader: with an untouched log, and either alone or by votes
cast before the last reply arrived. -/
theorem newly_leading (before : Cluster.Reaches past cluster) (step : Cluster.Step cluster action later)
    {id : Int} (member : id ∈ cluster.members) (leads : (later.node id).state = .leader)
    (leaderless : termLog (cluster :: past) (later.node id).currentTerm = []) :
    (later.node id).log = (cluster.node id).log ∧
      ∃ quorum, Majority cluster.members quorum ∧
        (((cluster.node id).currentTerm < (later.node id).currentTerm ∧ ∀ voter ∈ quorum, voter = id) ∨
          ((cluster.node id).state = .candidate ∧
            (later.node id).currentTerm = (cluster.node id).currentTerm ∧
            ∀ voter ∈ quorum, voter ∈ cluster.members ∧
              VotedIn (cluster :: past) voter (cluster.node id).currentTerm id)) := by
  have effect := Cluster.step_effect step
  have membersBefore := membership before.loosely
  have votes := ballot before.loosely
  have notBefore : (cluster.node id).state = .leader →
      (later.node id).currentTerm ≠ (cluster.node id).currentTerm := by
    intro led level
    rw [level, termLog_leader before member led] at leaderless
    have filled := ((logInv before).logs id member).head.length_le
    rw [leaderless] at filled
    cases filled
  have majority : (later.node id).hasMajority → (later.node id).votesReceived ⊆ cluster.members.toFinset →
      Majority cluster.members (later.node id).votesReceived := by
    intro enough inside
    unfold RaftNode.hasMajority at enough
    rw [(effect.move id).identity.clusterSize, membersBefore.size id member] at enough
    exact ⟨inside, by omega⟩
  refine ⟨?_, (later.node id).votesReceived, ?_⟩
  · cases (effect.move id).log with
    | keep log => exact log
    | elect log => exact log
    | extend command led after_leads term => exact absurd term (notBefore led)
    | repair inFlight term follows =>
      rw [follows] at leads
      cases leads
  · cases (effect.move id).ballot with
    | follow follows =>
      rw [follows] at leads
      cases leads
    | hold state term => exact absurd term (notBefore (state.symm.trans leads))
    | campaign term vote counted outcome =>
      rw [membersBefore.identity id member] at counted
      rcases outcome with campaigns | ⟨-, enough⟩
      · rw [campaigns] at leads
        cases leads
      · refine ⟨majority enough ?_, .inl ⟨term, ?_⟩⟩
        · rw [counted, Finset.singleton_subset_iff, List.mem_toFinset]
          exact member
        · intro voter inside
          rw [counted] at inside
          exact Finset.mem_singleton.mp inside
    | count campaigning term vote counted outcome =>
      obtain ⟨peer, ⟨reply, inFlight, -, granted⟩, shape⟩ := counted
      have backed : ∀ voter ∈ (later.node id).votesReceived, voter ∈ cluster.members ∧
          VotedIn (cluster :: past) voter (cluster.node id).currentTerm id := by
        intro voter inside
        rw [shape] at inside
        rcases Finset.mem_insert.mp inside with rfl | old
        · exact votes.replies _ _ _ _ inFlight granted
        · exact votes.backed id member (by rw [campaigning]; decide) voter old
      rcases outcome with campaigns | ⟨-, enough⟩
      · rw [campaigns] at leads
        cases leads
      · refine ⟨majority enough fun voter inside => ?_, .inr ⟨campaigning, term, backed⟩⟩
        exact List.mem_toFinset.mpr (backed voter inside).1

theorem leadInv_step (before : CarefullyReaches past cluster) (step : CarefulStep cluster action later)
    (known : LeadInv past cluster) : LeadInv (cluster :: past) later := by
  intro book extending leading filled term n nonneg below own
  have reached := Cluster.ReachesWhen.reaches before
  have moved := step.1
  have run : Cluster.Reaches (cluster :: past) later := .next reached moved
  have effect := Cluster.step_effect moved
  have earlier := extending.earlier reached moved
  have terms := fun id => (effect.move id).ballot.term_le
  rw [effect.members]
  by_cases leaderless : termLog (cluster :: past) leading = []
  · -- the leader of this term was elected in this very step
    cases found : leaderOf later leading with
    | none =>
      refine absurd ?_ filled
      unfold termLog
      rw [found]
      exact leaderless
    | some id =>
      obtain ⟨member, leads, level⟩ := leaderOf_some found
      have listed := termLog_leader run member leads
      rw [effect.members] at member
      rw [level] at listed
      obtain ⟨log, quorum, majority, votes⟩ :=
        newly_leading reached moved member leads (by rw [level]; exact leaderless)
      by_cases kept : (book term).take (n + 1) <+: (cluster.node id).log
      · left
        rw [← log, ← listed] at kept
        exact kept.trans (extending.grows leading)
      · refine .inr ⟨quorum, majority, fun voter inside => ?_⟩
        rcases votes with ⟨above, alone⟩ | ⟨campaigning, same, backed⟩
        · have self := alone voter inside
          subst self
          refine ⟨by omega, fun held => ?_⟩
          have lost := (keepInv reached book earlier voter member term n
            (held.before (by omega))).resolve_left kept
          exact ((lost.raise (above.le.trans level.le)).below leaderless).grow reached moved
        · obtain ⟨voterMember, voted⟩ := backed voter inside
          have real : id ≠ -1 := fun sentinel => (membership reached.loosely).unlisted (sentinel ▸ member)
          have voterTerm : (cluster.node id).currentTerm ≤ (cluster.node voter).currentTerm := by
            rcases (ballot reached.loosely).standing _ _ _ real voted with passed | ⟨current, -⟩ <;> omega
          have grown := terms voter
          refine ⟨by omega, fun held => ?_⟩
          have current : (cluster.node id).currentTerm = leading := same.symm.trans level
          have lost := (voteInv before book earlier id member campaigning (current ▸ leaderless) voter
            voterMember voted term n (by omega) own (held.before (by omega))).resolve_left kept
          rw [current] at lost
          exact (lost.below leaderless).grow reached moved
  · rcases known book earlier leading leaderless term n nonneg below own with kept | ⟨quorum, majority, facts⟩
    · exact .inl kept
    · refine .inr ⟨quorum, majority, fun voter inside => ?_⟩
      obtain ⟨passed, lost⟩ := facts voter inside
      have grown := terms voter
      exact ⟨by omega, fun held => (lost (held.before (by omega))).grow reached moved⟩

theorem leadInv (run : CarefullyReaches past cluster) : LeadInv past cluster := by
  apply run.invariant
  · intro cluster fresh book extending leading filled term n nonneg below
    have reached : Cluster.Reaches [] cluster := .start fresh
    have first : leading = 0 := by
      rcases termLog_origin reached leading with ⟨zero, -⟩ | empty | ⟨id, member, state, seen, leads, -⟩
      · exact zero
      · exact absurd empty filled
      · rw [List.mem_singleton] at seen
        subst seen
        obtain ⟨peers, onCommit, shape, -⟩ := fresh.2.2.2 id member
        rw [shape] at leads
        cases leads
    omega
  · exact fun _ _ _ _ before known step => leadInv_step before step known

/-- The book's entry `n` of `term` was made in it, and a majority once held the list up to there. -/
structure Committed (members : List Int) (visited : List Cluster) (book : Int → List LogEntry) (term : Int)
    (n : Nat) : Prop where
  own : OwnEntry book term n
  quorum : ∃ quorum, Majority members quorum ∧ ∀ voter ∈ quorum, Held visited book voter term n

theorem Committed.term_nonneg (run : Cluster.Reaches past cluster) {term : Int} {n : Nat}
    (committed : Committed cluster.members (cluster :: past) book term n) : 0 ≤ term := by
  obtain ⟨quorum, majority, holds⟩ := committed.quorum
  have positive : 0 < quorum.card := by
    have enough := majority.2
    omega
  obtain ⟨voter, inside⟩ := Finset.card_pos.mp positive
  obtain ⟨-, state, seen, level, -⟩ := holds voter inside
  obtain ⟨older, shorter, within⟩ := Run.visited run seen
  have member := majority.mem inside
  have known := membership (Cluster.Reaches.loosely shorter)
  have constant : state.members = cluster.members := by
    rcases List.mem_cons.mp seen with rfl | inPast
    · rfl
    · exact (membership run.loosely).constant state inPast
  rw [← level]
  exact known.terms_nonneg voter (constant ▸ member)

theorem Committed.step (before : Cluster.Reaches past cluster) (step : Cluster.Step cluster action later)
    {term : Int} {n : Nat}
    (committed : Committed cluster.members (cluster :: past) (termLog (cluster :: past)) term n) :
    Committed later.members (later :: cluster :: past) (termLog (later :: cluster :: past)) term n := by
  have grows := termLog_grows before step
  obtain ⟨⟨entry, found, made⟩, quorum, majority, holds⟩ := committed
  rw [(Cluster.step_effect step).members]
  exact ⟨⟨entry, getElem?_mono (grows term) found, made⟩, quorum, majority,
    fun voter inside => (holds voter inside).grow grows (List.subset_cons_self _ _)⟩

/-- Leader completeness: what a majority held is in the list of every later leader. -/
theorem Committed.kept (run : CarefullyReaches past cluster) (extending : Extends (cluster :: past) book)
    {term : Int} {n : Nat} (committed : Committed cluster.members (cluster :: past) book term n)
    {leading : Int} (above : term < leading) (filled : termLog (cluster :: past) leading ≠ []) :
    (book term).take (n + 1) <+: book leading := by
  have nonneg := committed.term_nonneg (Cluster.ReachesWhen.reaches run)
  -- induction on the distance to the later term: what was lost was lost in between
  obtain ⟨distance, far⟩ : ∃ distance : Nat, leading - term ≤ distance := ⟨_, Int.self_le_toNat _⟩
  induction distance generalizing leading with
  | zero => omega
  | succ distance ih =>
    rcases leadInv run book extending leading filled term n nonneg above committed.own with
      kept | ⟨others, majority, facts⟩
    · exact kept
    · obtain ⟨quorum, holding, holds⟩ := committed.quorum
      obtain ⟨voter, inQuorum, inOthers⟩ := holding.common majority
      obtain ⟨between, later_term, bounded, led, missing⟩ := (facts voter inOthers).2 (holds voter inQuorum)
      exact absurd (ih later_term led (by omega)) missing

/-- The log up to `k` is part of what was committed in some term up to `limit`. -/
def Covered (members : List Int) (visited : List Cluster) (limit : Int) (log : List LogEntry) (k : Nat) : Prop :=
  ∃ term n, term ≤ limit ∧ k ≤ n ∧ Committed members visited (termLog visited) term n ∧
    k < log.length ∧ log.take (k + 1) <+: termLog visited term

theorem Covered.step (before : Cluster.Reaches past cluster) (step : Cluster.Step cluster action later)
    {limit higher : Int} {log longer : List LogEntry} {k : Nat}
    (covered : Covered cluster.members (cluster :: past) limit log k) (raised : limit ≤ higher)
    (pre : log.take (k + 1) <+: longer) :
    Covered later.members (later :: cluster :: past) higher longer k := by
  obtain ⟨term, n, bound, below, committed, inside, listed⟩ := covered
  have size : (log.take (k + 1)).length = k + 1 := by
    rw [List.length_take]
    omega
  have same := take_prefix_take pre size.ge
  rw [List.take_take, min_self] at same
  refine ⟨term, n, bound.trans raised, below, committed.step before step, ?_, ?_⟩
  · have long := pre.length_le
    omega
  · rw [← same]
    exact listed.trans (termLog_grows before step term)

theorem Covered.lower {members : List Int} {visited : List Cluster} {limit : Int} {log : List LogEntry} {k m : Nat}
    (covered : Covered members visited limit log k) (below : m ≤ k) : Covered members visited limit log m := by
  obtain ⟨term, n, bound, above, committed, inside, listed⟩ := covered
  refine ⟨term, n, bound, below.trans above, committed, by omega, List.IsPrefix.trans ?_ listed⟩
  exact List.take_prefix_take_left (by omega)

/-- The command at `index` is fixed by something committed. -/
def Decided (members : List Int) (visited : List Cluster) (command : Bytes) (index : Int) : Prop :=
  ∃ term n, ∃ (k : Nat) (entry : LogEntry), Committed members visited (termLog visited) term n ∧
    index = k ∧ k ≤ n ∧ (termLog visited term)[k]? = some entry ∧ entry.command = command

theorem Covered.decided {members : List Int} {visited : List Cluster} {limit : Int} {log : List LogEntry} {k m : Nat}
    {entry : LogEntry} (covered : Covered members visited limit log k) (below : m ≤ k)
    (found : log[m]? = some entry) : Decided members visited entry.command m := by
  obtain ⟨term, n, bound, above, committed, inside, listed⟩ := covered
  refine ⟨term, n, m, entry, committed, rfl, by omega, getElem?_mono listed ?_, rfl⟩
  rw [List.getElem?_take_of_lt (by omega)]
  exact found

theorem Decided.step (before : Cluster.Reaches past cluster) (step : Cluster.Step cluster action later)
    {command : Bytes} {index : Int} (decided : Decided cluster.members (cluster :: past) command index) :
    Decided later.members (later :: cluster :: past) command index := by
  obtain ⟨term, n, k, entry, committed, same, below, found, named⟩ := decided
  exact ⟨term, n, k, entry, committed.step before step, same, below,
    getElem?_mono (termLog_grows before step term) found, named⟩

theorem Decided.unique (run : CarefullyReaches past cluster) {first second : Bytes} {index : Int}
    (one : Decided cluster.members (cluster :: past) first index)
    (two : Decided cluster.members (cluster :: past) second index) : first = second := by
  obtain ⟨term, n, k, entry, committed, rfl, below, found, rfl⟩ := one
  obtain ⟨other, m, j, entry', committed', same, below', found', rfl⟩ := two
  have level : j = k := by omega
  subst level
  have extending : Extends (cluster :: past) (termLog (cluster :: past)) :=
    ⟨fun _ => List.prefix_refl _, (logInv (Cluster.ReachesWhen.reaches run)).bounded⟩
  -- the list of the earlier term is inside the list of the later one
  have carried : ∀ {low high : Int} {count : Nat} {mine yours : LogEntry},
      Committed cluster.members (cluster :: past) (termLog (cluster :: past)) low count → low < high →
      j ≤ count → (termLog (cluster :: past) low)[j]? = some mine →
      (termLog (cluster :: past) high)[j]? = some yours → mine = yours := by
    intro low high count mine yours decided above inside here there
    have filled : termLog (cluster :: past) high ≠ [] := List.ne_nil_of_mem (List.mem_of_getElem? there)
    have kept := getElem?_mono (decided.kept run extending above filled)
      ((List.getElem?_take_of_lt (by omega)).trans here)
    exact Option.some.inj (kept.symm.trans there)
  rcases lt_trichotomy term other with above | rfl | above
  · rw [carried committed above below found found']
  · rw [Option.some.inj (found.symm.trans found')]
  · rw [carried committed' above below' found' found]

/-- Every call in `after` is in `before` or names an entry up to the commit index. -/
def CallsWithin (before after : RaftNode) : Prop :=
  ∀ call ∈ after.commits, call ∈ before.commits ∨
    call.2 ≤ after.commitIndex ∧ ∃ entry, after.logAt call.2 = some entry ∧ entry.command = call.1

inductive CommitMove (cluster : Cluster) (id : Int) (after : RaftNode) : Prop where
  | keep (log : (cluster.node id).log <+: after.log)
      (term : (cluster.node id).currentTerm ≤ after.currentTerm)
      (commit : after.commitIndex = (cluster.node id).commitIndex)
      (calls : after.commits = (cluster.node id).commits)
  | repair {leader : Int} {args : AppendEntriesArgs}
      (inFlight : .appendRequest id after.currentTerm leader args ∈ cluster.net)
      (term : (cluster.node id).currentTerm ≤ after.currentTerm)
      (matching : ∃ prev, (cluster.node id).logAt args.prevLogIndex = some prev ∧
        prev.term = args.prevLogTerm)
      (log : after.log = placeEntries (cluster.node id).log args.prevLogIndex.toNat args.entries)
      (commit : (after.commitIndex = (cluster.node id).commitIndex ∧
          after.commits = (cluster.node id).commits) ∨
        (after.commitIndex = min args.leaderCommit (args.prevLogIndex + args.entries.length) ∧
          CallsWithin (cluster.node id) after))
  | advance (n : Nat) (entry : LogEntry) (leads : after.state = .leader)
      (log : after.log = (cluster.node id).log)
      (term : after.currentTerm = (cluster.node id).currentTerm) (commit : after.commitIndex = n)
      (above : (cluster.node id).commitIndex < n)
      (located : after.logAt n = some entry) (own : entry.term = after.currentTerm)
      (enough : after.clusterSize / 2 < after.matchCount n)
      (calls : CallsWithin (cluster.node id) after)

theorem Cluster.Move.commit {packet : Option Packet} {id : Int} {node : RaftNode}
    (move : cluster.Move packet id node) : CommitMove cluster id node := by
  cases move with
  | start =>
    rcases RaftNode.start_cases (cluster.node id) with same | same <;> rw [same] <;>
      exact .keep (List.prefix_refl _) (le_refl _) rfl rfl
  | propose leads =>
    rw [RaftNode.propose_leader leads]
    exact .keep (List.prefix_append _ _) (le_refl _) rfl rfl
  | campaign free => exact .keep (List.prefix_refl _) (Int.lt_succ _).le rfl rfl
  | winAlone free majority => exact .keep (List.prefix_refl _) (Int.lt_succ _).le rfl rfl
  | vote delivers inFlight fresh free => exact .keep (List.prefix_refl _) fresh rfl rfl
  | stepDown above => exact .keep (List.prefix_refl _) above.le rfl rfl
  | follow inFlight fresh =>
    rw [RaftNode.seeLeader_eq _ fresh]
    exact .keep (List.prefix_refl _) fresh rfl rfl
  | @accept term leader args _ inFlight fresh matching ran =>
    have log := RaftNode.acceptEntries_log ran
    obtain ⟨-, -, kept, -⟩ := RaftNode.acceptEntries_ballot ran
    have outcome := RaftNode.acceptEntries_cases ran
    rw [RaftNode.seeLeader_eq _ fresh] at log kept outcome
    have level : node.currentTerm = term := kept
    refine @CommitMove.repair cluster id node leader args (by rw [level]; exact inFlight)
      (by rw [level]; exact fresh) matching log ?_
    rcases outcome with rfl | ⟨lastApplied, commits, -, rfl, calls⟩
    · exact .inl ⟨rfl, rfl⟩
    · exact .inr ⟨rfl, fun call member => (calls call member).imp_right fun new => ⟨new.2.1, new.2.2⟩⟩
  | @acknowledge peer sent _ _ delivers inFlight leads runs current typed accepted ran =>
    obtain ⟨log, term, -, state, commitIndex, earlier⟩ := RaftNode.acknowledge_fields (cluster.node id) peer sent
    generalize (cluster.node id).acknowledge peer sent = acknowledged at log term state commitIndex earlier ran
    rcases RaftNode.commitScan_cases ran with
      rfl | ⟨n, entry, lastApplied, commits, above, located, own, enough, rfl, calls⟩
    · exact .keep (log ▸ List.prefix_refl _) term.ge commitIndex earlier
    · refine .advance n entry (state.trans leads) log term rfl (commitIndex ▸ above) located own enough ?_
      intro call member
      rw [← earlier]
      exact (calls call member).imp_right fun new => ⟨new.2.1, new.2.2⟩
  | _ => exact .keep (List.prefix_refl _) (le_refl _) rfl rfl

structure CommitInv (past : List Cluster) (cluster : Cluster) : Prop where
  nodes : ∀ id ∈ cluster.members, ∃ k : Nat, (cluster.node id).commitIndex = k ∧
    Covered cluster.members (cluster :: past) (cluster.node id).currentTerm (cluster.node id).log k
  requests : ∀ target term leader (args : AppendEntriesArgs), .appendRequest target term leader args ∈ cluster.net →
    ∃ k : Nat, args.leaderCommit = k ∧
      Covered cluster.members (cluster :: past) term (termLog (cluster :: past) term) k
  calls : ∀ id ∈ cluster.members, ∀ call ∈ (cluster.node id).commits,
    Decided cluster.members (cluster :: past) call.1 call.2

theorem commitInv_initial {cluster : Cluster} (fresh : cluster.Initial) : CommitInv [] cluster := by
  have reached : Cluster.Reaches [] cluster := .start fresh
  have listing := (logInv reached).logs
  obtain ⟨distinct, -, quiet, nodes⟩ := fresh
  have shapes : ∀ id ∈ cluster.members, ∃ peers onCommit, cluster.node id = RaftNode.new id peers onCommit :=
    fun id member => by
      obtain ⟨peers, onCommit, shape, -⟩ := nodes id member
      exact ⟨peers, onCommit, shape⟩
  have start : ∀ id ∈ cluster.members, [sentinel] <+: termLog [cluster] 0 := by
    intro id member
    obtain ⟨peers, onCommit, shape⟩ := shapes id member
    have coherent := (listing id member).coherent
    rw [shape] at coherent
    exact coherent 0 sentinel rfl
  refine ⟨?_, ?_, ?_⟩
  · intro id member
    have listed := start id member
    have first := getElem?_mono listed (rfl : [sentinel][0]? = some sentinel)
    have nonempty : cluster.members ≠ [] := List.ne_nil_of_mem member
    have all : Committed cluster.members [cluster] (termLog [cluster]) 0 0 := by
      refine ⟨⟨sentinel, first, rfl⟩, _, majority_all distinct nonempty, fun voter inside => ?_⟩
      obtain ⟨peers, onCommit, shape⟩ := shapes voter (List.mem_toFinset.mp inside)
      refine ⟨lt_of_getElem? first, cluster, List.mem_cons_self, by rw [shape]; rfl, ?_⟩
      rw [← take_prefix_take listed (Nat.le_refl 1), shape]
      exact List.prefix_refl _
    obtain ⟨peers, onCommit, shape⟩ := shapes id member
    rw [shape]
    exact ⟨0, rfl, 0, 0, le_refl _, le_refl _, all, Nat.zero_lt_one, listed⟩
  · intro target term leader args inFlight
    rw [quiet] at inFlight
    cases inFlight
  · intro id member call made
    obtain ⟨peers, onCommit, shape⟩ := shapes id member
    rw [shape] at made
    cases made

theorem Covered.repaired (before : CarefullyReaches past cluster) {limit term : Int} {k m : Nat}
    {old kept : List LogEntry} (covered : Covered cluster.members (cluster :: past) limit old k)
    (reached : limit ≤ term) (inside : m < (termLog (cluster :: past) term).length)
    (repaired : ((termLog (cluster :: past) term).take (m + 1) <+: old ∧ kept = old) ∨
      (¬ (termLog (cluster :: past) term).take (m + 1) <+: old ∧
        kept = (termLog (cluster :: past) term).take (m + 1))) :
    old.take (k + 1) <+: kept := by
  obtain ⟨origin, n, bound, below, committed, present, listed⟩ := covered
  have within : old.take (k + 1) <+: termLog (cluster :: past) term := by
    rcases (bound.trans reached).lt_or_eq with above | same
    · have extending : Extends (cluster :: past) (termLog (cluster :: past)) :=
        ⟨fun _ => List.prefix_refl _, (logInv (Cluster.ReachesWhen.reaches before)).bounded⟩
      have carried := committed.kept before extending above (List.ne_nil_of_length_pos (by omega))
      refine List.IsPrefix.trans ?_ carried
      apply List.prefix_of_prefix_length_le listed (List.take_prefix _ _)
      obtain ⟨entry, found, -⟩ := committed.own
      have long := lt_of_getElem? found
      rw [List.length_take, List.length_take]
      omega
    · rw [← same]
      exact listed
  exact repair_keeps repaired (List.take_prefix _ _) within (List.take_prefix _ _)

theorem commitInv_nodes (before : CarefullyReaches past cluster) (step : CarefulStep cluster action later)
    (known : CommitInv past cluster) {id : Int} (member : id ∈ cluster.members) :
    ∃ k : Nat, (later.node id).commitIndex = k ∧
      Covered later.members (later :: cluster :: past) (later.node id).currentTerm (later.node id).log k := by
  have run : CarefullyReaches (cluster :: past) later := .next before step
  have reached := Cluster.ReachesWhen.reaches before
  have moved := step.1
  have effect := Cluster.step_effect moved
  obtain ⟨k, index, covered⟩ := known.nodes id member
  cases (effect.move id).commit with
  | keep log term commit calls =>
    exact ⟨k, commit.trans index, covered.step reached moved term ((List.take_prefix _ _).trans log)⟩
  | @repair leader args inFlight term matching log commit =>
    obtain ⟨n, sent, inside, repaired⟩ := (logInv reached).repaired member inFlight matching log
    rcases commit with ⟨same, -⟩ | ⟨raised, -⟩
    · exact ⟨k, same.trans index, covered.step reached moved term
        (covered.repaired before term inside repaired)⟩
    · obtain ⟨limit, upTo, backed⟩ := known.requests _ _ _ _ inFlight
      have holds : (termLog (cluster :: past) (later.node id).currentTerm).take (n + 1) <+:
          (later.node id).log := by
        rcases repaired with ⟨held, same⟩ | ⟨-, same⟩ <;> rw [same]
        exact held
      refine ⟨min limit n, by rw [raised, upTo, sent]; omega, ?_⟩
      refine (backed.lower (Nat.min_le_left limit n)).step reached moved (le_refl _) ?_
      exact (List.take_prefix_take_left (by omega)).trans holds
  | advance n entry leads log term commit above located own enough calls =>
    have inLater : id ∈ later.members := effect.members ▸ member
    have listed := termLog_leader (Cluster.ReachesWhen.reaches run) inLater leads
    obtain ⟨quorum, majority, -, holds⟩ :=
      counted_quorum (CarefullyReaches.currently run) inLater leads (by omega) located enough
    have here := (logAt_some located).2
    rw [Int.toNat_natCast] at here
    refine ⟨n, commit, (later.node id).currentTerm, n, le_refl _, le_refl _, ⟨?_, quorum, majority, holds⟩,
      lt_of_getElem? here, ?_⟩
    · exact ⟨entry, by rw [listed]; exact here, own⟩
    · rw [listed]
      exact List.take_prefix _ _

theorem commitInv_step (before : CarefullyReaches past cluster) (step : CarefulStep cluster action later)
    (known : CommitInv past cluster) : CommitInv (cluster :: past) later := by
  have run : CarefullyReaches (cluster :: past) later := .next before step
  have reached := Cluster.ReachesWhen.reaches before
  have moved := step.1
  have effect := Cluster.step_effect moved
  have nodes := fun id (member : id ∈ later.members) =>
    commitInv_nodes before step known (effect.members ▸ member)
  refine ⟨nodes, ?_, ?_⟩
  · intro target term leader args inFlight
    rcases effect.sent inFlight with old | sent
    · obtain ⟨k, index, covered⟩ := known.requests _ _ _ _ old
      exact ⟨k, index, covered.step reached moved (le_refl _)
        ((List.take_prefix _ _).trans (termLog_grows reached moved term))⟩
    · cases sent with
      | @appendRequest id peer _ member sender leads listed built =>
        have inLater : id ∈ later.members := effect.members ▸ member
        obtain ⟨k, index, covered⟩ := nodes id inLater
        have listing := termLog_leader (Cluster.ReachesWhen.reaches run) inLater (by rw [sender]; exact leads)
        rw [sender] at index covered listing
        rw [(heartbeatFor_served built).1, listing]
        exact ⟨k, index, covered⟩
  · intro id member call made
    obtain ⟨k, index, covered⟩ := nodes id member
    have old : ∀ call ∈ (cluster.node id).commits,
        Decided later.members (later :: cluster :: past) call.1 call.2 :=
      fun call earlier => (known.calls id (effect.members ▸ member) call earlier).step reached moved
    have within : CallsWithin (cluster.node id) (later.node id) → Decided later.members
        (later :: cluster :: past) call.1 call.2 := by
      intro calls
      rcases calls call made with earlier | ⟨below, entry, located, named⟩
      · exact old call earlier
      · obtain ⟨nonneg, found⟩ := logAt_some located
        have decided := covered.decided (m := call.2.toNat) (by omega) found
        rw [named, Int.toNat_of_nonneg nonneg] at decided
        exact decided
    cases (effect.move id).commit with
    | keep log term commit calls => exact old call (calls ▸ made)
    | repair inFlight term matching log commit =>
      rcases commit with ⟨-, same⟩ | ⟨-, calls⟩
      · exact old call (same ▸ made)
      · exact within calls
    | advance n entry leads log term commit above located own enough calls => exact within calls

theorem commitInv (run : CarefullyReaches past cluster) : CommitInv past cluster :=
  run.invariant (fun _ fresh => commitInv_initial fresh)
    fun _ _ _ _ before known step => commitInv_step before step known

/-- No two calls of `on_commit_` so far pass different commands for one index. -/
def AppliedAlike (cluster : Cluster) : Prop :=
  ∀ first ∈ cluster.members, ∀ second ∈ cluster.members, ∀ (index : Int) (mine yours : Bytes),
    (mine, index) ∈ (cluster.node first).commits → (yours, index) ∈ (cluster.node second).commits →
    mine = yours

/-- State machine safety where votes and acknowledgements are taken with care. -/
theorem state_machine_safety (run : CarefullyReaches past cluster) : AppliedAlike cluster := by
  intro first firstMember second secondMember index mine yours here there
  have known := commitInv run
  exact Decided.unique run (known.calls first firstMember _ here) (known.calls second secondMember _ there)

end Step

/-- Node 1 wins the votes of node 2, replicates a command to it and tells it to apply it. -/
def replication : List Action :=
  [.start 1, .start 2, .start 3, .startElection 1, .deliver 0, .deliver 1, .propose 1 [0x61],
    .sendHeartbeats 1, .deliver 1, .deliver 2, .sendHeartbeats 1, .deliver 2]

theorem state_machine_safety_trio : ∃ past cluster, CarefullyReaches past cluster ∧
    ([0x61], 1) ∈ (cluster.node 1).commits ∧ ([0x61], 1) ∈ (cluster.node 2).commits ∧
      AppliedAlike cluster := by
  have applied : ∃ visited ∈ replay (Cluster.actWhen Careful) Cluster.trio replication,
      ([0x61], 1) ∈ (visited.2.node 1).commits ∧ ([0x61], 1) ∈ (visited.2.node 2).commits := by
    decide +kernel
  obtain ⟨visited, played, first, second⟩ := applied
  have run := Cluster.trio_replay played
  exact ⟨_, _, run, first, second, state_machine_safety run⟩

/-- Node 1 commits a command with node 2, which then elects node 3 with its empty log. -/
def divergence : List Action :=
  [.start 1, .start 2, .start 3, .startElection 1, .deliver 0, .deliver 1, .propose 1 [0x61],
    .sendHeartbeats 1, .deliver 1, .deliver 2, .startElection 3, .startElection 3, .deliver 5, .deliver 5,
    .propose 3 [0x62], .sendHeartbeats 3, .deliver 6, .deliver 6]

theorem state_machine_safety_fails : ¬ ∀ past cluster,
    Cluster.ReachesWhen Cluster.NoDuplicate past cluster → AppliedAlike cluster := by
  intro safe
  have applied : ∃ visited ∈ replay (Cluster.actWhen Cluster.NoDuplicate) Cluster.trio divergence,
      visited.2.members = [1, 2, 3] ∧ ([0x61], 1) ∈ (visited.2.node 1).commits ∧
        ([0x62], 1) ∈ (visited.2.node 3).commits := by
    decide +kernel
  obtain ⟨visited, played, members, first, second⟩ := applied
  have same := safe _ _ (Cluster.trio_replay played) 1 (by rw [members]; decide) 3
    (by rw [members]; decide) 1 _ _ first second
  exact absurd same (by decide)

end QuorumDB.Raft
