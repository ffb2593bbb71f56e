import QuorumDB.Raft.Log

/-!
What a leader's commit counts. An acknowledgement carries no request id, so the
quorum behind a commit is real in the executions whose leaders only take
acknowledgements of their own term.
-/

namespace QuorumDB.Raft
open Execution Quorum TermLog

/-- At some state passed through, `voter` was in `term` with the term's list up to `n`. -/
def Held (visited : List Cluster) (book : Int → List LogEntry) (voter term : Int) (n : Nat) : Prop :=
  n < (book term).length ∧ ∃ cluster ∈ visited, (cluster.node voter).currentTerm = term ∧
    (book term).take (n + 1) <+: (cluster.node voter).log

theorem Held.grow {visited more : List Cluster} {book larger : Int → List LogEntry} {voter term : Int}
    {n : Nat} (held : Held visited book voter term n) (grows : ∀ t, book t <+: larger t)
    (included : visited ⊆ more) : Held more larger voter term n := by
  obtain ⟨inside, cluster, seen, level, holds⟩ := held
  refine ⟨inside.trans_le (grows term).length_le, cluster, included seen, level, ?_⟩
  rw [← take_prefix_take (grows term) inside]
  exact holds

theorem Held.lower {visited : List Cluster} {book : Int → List LogEntry} {voter term : Int}
    {n m : Nat} (held : Held visited book voter term n) (below : m ≤ n) :
    Held visited book voter term m := by
  obtain ⟨inside, cluster, seen, level, holds⟩ := held
  refine ⟨by omega, cluster, seen, level, List.IsPrefix.trans ?_ holds⟩
  exact List.take_prefix_take_left (by omega)

/-- An acknowledgement that a running leader takes is one of its current term. -/
def CurrentAck (cluster : Cluster) : Packet → Prop
  | .appendReply target _ _ reply =>
      (cluster.node target).running = true → (cluster.node target).state = .leader →
      reply.type = .appendEntriesReply → reply.payload = yes →
      (cluster.node target).currentTerm ≤ reply.term
  | _ => True

instance (cluster : Cluster) : (packet : Packet) → Decidable (CurrentAck cluster packet)
  | .appendReply .. => inferInstanceAs (Decidable (_ → _))
  | .voteRequest .. | .voteReply .. | .appendRequest .. => inferInstanceAs (Decidable True)

def CurrentReplies (cluster : Cluster) (action : Action) : Prop :=
  ∀ packet ∈ cluster.delivered action, CurrentAck cluster packet

instance (cluster : Cluster) (action : Action) : Decidable (CurrentReplies cluster action) :=
  inferInstanceAs (Decidable (∀ packet ∈ _, _))

abbrev CurrentStep : Cluster → Action → Cluster → Prop := Cluster.StepWhen CurrentReplies

abbrev CurrentlyReaches : List Cluster → Cluster → Prop := Cluster.ReachesWhen CurrentReplies

/-- Acknowledgements in flight and match indexes stand for logs that were really held. -/
structure AckInv (past : List Cluster) (cluster : Cluster) : Prop where
  replies : ∀ target peer (sent : Int) reply, .appendReply target peer sent reply ∈ cluster.net →
    reply.payload = yes → ∃ n : Nat, sent = n ∧
      Held (cluster :: past) (termLog (cluster :: past)) peer reply.term n
  matched : ∀ id ∈ cluster.members, (cluster.node id).state = .leader →
    ∀ peer ∈ (cluster.node id).peers, (cluster.node id).matchIndex peer ≤ 0 ∨
      ∃ n : Nat, (cluster.node id).matchIndex peer = n ∧
        Held (cluster :: past) (termLog (cluster :: past)) peer (cluster.node id).currentTerm n

theorem RaftNode.propose_leader {node : RaftNode} {command : Bytes} (leads : node.state = .leader) :
    (node.propose command).1 =
      { node with log := node.log ++ [⟨node.currentTerm, node.log.length, command⟩] } := by
  simp only [propose, leads, ne_eq, not_true_eq_false, ↓reduceIte]

section Step

variable {past : List Cluster} {cluster later : Cluster} {action : Action}

theorem accept_holds (before : Cluster.Reaches past cluster) {target term leader : Int}
    {args : AppendEntriesArgs} {node : RaftNode} (member : target ∈ cluster.members)
    (inFlight : .appendRequest target term leader args ∈ cluster.net)
    (fresh : (cluster.node target).currentTerm ≤ term)
    (matching : ∃ prev, (cluster.node target).logAt args.prevLogIndex = some prev ∧
      prev.term = args.prevLogTerm)
    (ran : ((cluster.node target).seeLeader term leader).acceptEntries args = some node) :
    node.currentTerm = term ∧ ∃ n : Nat, args.prevLogIndex + args.entries.length = n ∧
      n < (termLog (cluster :: past) term).length ∧
      (termLog (cluster :: past) term).take (n + 1) <+: node.log := by
  have log := RaftNode.acceptEntries_log ran
  obtain ⟨-, -, kept, -⟩ := RaftNode.acceptEntries_ballot ran
  rw [RaftNode.seeLeader_eq _ fresh] at log kept
  obtain ⟨n, index, inside, ⟨held, same⟩ | ⟨-, same⟩⟩ :=
    (logInv before).repaired member inFlight matching log
  · refine ⟨kept, n, index, inside, ?_⟩
    rw [same]
    exact held
  · refine ⟨kept, n, index, inside, ?_⟩
    rw [same]

theorem ack_replies_step (before : Cluster.Reaches past cluster)
    (step : Cluster.Step cluster action later) (known : AckInv past cluster) :
    ∀ target peer (sent : Int) reply, .appendReply target peer sent reply ∈ later.net →
      reply.payload = yes → ∃ n : Nat, sent = n ∧
        Held (later :: cluster :: past) (termLog (later :: cluster :: past)) peer reply.term n := by
  intro target peer sent reply inFlight accepted
  have effect := Cluster.step_effect step
  have grows := termLog_grows before step
  rcases effect.sent inFlight with old | new
  · obtain ⟨n, same, held⟩ := known.replies _ _ _ _ old accepted
    exact ⟨n, same, held.grow grows (List.subset_cons_self _ _)⟩
  · cases new with
    | rejection refused =>
      rw [refused] at accepted
      exact absurd accepted (by decide)
    | @acceptance _ term leader args member asked fresh matching ran =>
      obtain ⟨level, n, index, inside, holds⟩ := accept_holds before member asked fresh matching ran
      refine ⟨n, index, ?_⟩
      change Held _ _ _ (later.node peer).currentTerm n
      rw [level]
      refine ⟨inside.trans_le (grows term).length_le, later, List.mem_cons_self, level, ?_⟩
      rw [← take_prefix_take (grows term) inside]
      exact holds

/-- Moves that leave a leader leading either keep its match indexes, reset them, or
take one acknowledgement. -/
theorem leader_matchIndex {packet : Option Packet} {id : Int} {node : RaftNode}
    (move : cluster.Move packet id node) (leads : node.state = .leader) :
    (∀ peer ∈ node.peers, node.matchIndex peer = 0) ∨
    ((cluster.node id).state = .leader ∧ node.currentTerm = (cluster.node id).currentTerm ∧
      (node.matchIndex = (cluster.node id).matchIndex ∨
        ∃ peer sent reply, packet = some (.appendReply id peer sent reply) ∧
          .appendReply id peer sent reply ∈ cluster.net ∧ (cluster.node id).running = true ∧
          reply.type = .appendEntriesReply ∧ reply.payload = yes ∧
          reply.term ≤ (cluster.node id).currentTerm ∧
          node.matchIndex = Function.update (cluster.node id).matchIndex peer
            (max ((cluster.node id).matchIndex peer) sent))) := by
  cases move with
  | same => exact .inr ⟨leads, rfl, .inl rfl⟩
  | start =>
    rcases RaftNode.start_cases (cluster.node id) with same | same <;> rw [same] at leads ⊢
    · exact .inr ⟨leads, rfl, .inl rfl⟩
    · cases leads
  | stop => exact .inr ⟨leads, rfl, .inl rfl⟩
  | @propose command led =>
    rw [RaftNode.propose_leader led]
    exact .inr ⟨led, rfl, .inl rfl⟩
  | campaign free => cases leads
  | winAlone free majority => exact .inl fun peer listed => if_pos listed
  | vote delivers inFlight fresh free => cases leads
  | stepDown above => cases leads
  | count inFlight campaigning current granted =>
    exact absurd (campaigning.symm.trans leads) (by decide)
  | win inFlight campaigning current granted majority =>
    exact .inl fun peer listed => if_pos listed
  | follow inFlight fresh =>
    rw [RaftNode.seeLeader_eq _ fresh] at leads
    cases leads
  | accept inFlight fresh matching ran =>
    obtain ⟨-, state, -, -⟩ := RaftNode.acceptEntries_ballot ran
    rw [RaftNode.seeLeader_eq _ fresh, leads] at state
    cases state
  | next led => exact .inr ⟨led, rfl, .inl rfl⟩
  | @acknowledge peer sent reply _ delivers inFlight led runs current typed accepted ran =>
    obtain ⟨-, -, term, -, -⟩ := RaftNode.advance_ballot ran
    refine .inr ⟨led, term, .inr ⟨peer, sent, reply, delivers, inFlight, runs, typed, accepted,
      current, ?_⟩⟩
    rcases RaftNode.commitScan_cases ran with rfl | ⟨n, entry, lastApplied, commits, -, -, -, -, rfl, -⟩ <;>
      rfl

theorem ack_matched_step (before : Cluster.Reaches past cluster) (step : CurrentStep cluster action later)
    (known : AckInv past cluster) :
    ∀ id ∈ later.members, (later.node id).state = .leader →
      ∀ peer ∈ (later.node id).peers, (later.node id).matchIndex peer ≤ 0 ∨
        ∃ n : Nat, (later.node id).matchIndex peer = n ∧
          Held (later :: cluster :: past) (termLog (later :: cluster :: past)) peer
            (later.node id).currentTerm n := by
  intro id member leads peer listed
  have effect := Cluster.step_effect step.1
  have grows := termLog_grows before step.1
  have included : cluster :: past ⊆ later :: cluster :: past := List.subset_cons_self _ _
  have move := effect.move id
  rw [effect.members] at member
  rcases leader_matchIndex move leads with
    reset | ⟨led, term, same | ⟨from_peer, sent, reply, delivers, inFlight, runs, typed, accepted,
      current, same⟩⟩
  · exact .inl (reset peer listed).le
  · rw [move.identity.peers] at listed
    rw [same, term]
    rcases known.matched id member led peer listed with low | ⟨n, level, held⟩
    · exact .inl low
    · exact .inr ⟨n, level, held.grow grows included⟩
  · rw [move.identity.peers] at listed
    have old := known.matched id member led peer listed
    rw [same, term]
    by_cases here : peer = from_peer
    · subst here
      rw [Function.update_self]
      rcases le_total sent ((cluster.node id).matchIndex peer) with covered | raised
      · rw [max_eq_left covered]
        rcases old with low | ⟨n, level, held⟩
        · exact .inl low
        · exact .inr ⟨n, level, held.grow grows included⟩
      · rw [max_eq_right raised]
        obtain ⟨n, level, held⟩ := known.replies _ _ _ _ inFlight accepted
        have own := step.2 _ delivers runs led typed accepted
        rw [le_antisymm current own] at held
        exact .inr ⟨n, level, held.grow grows included⟩
    · rw [Function.update_of_ne here]
      rcases old with low | ⟨n, level, held⟩
      · exact .inl low
      · exact .inr ⟨n, level, held.grow grows included⟩

theorem ackInv (run : CurrentlyReaches past cluster) : AckInv past cluster := by
  apply run.invariant
  · intro cluster fresh
    obtain ⟨-, -, quiet, nodes⟩ := fresh
    refine ⟨?_, ?_⟩
    · intro target peer sent reply inFlight
      rw [quiet] at inFlight
      cases inFlight
    · intro id member leads
      obtain ⟨peers, onCommit, shape, -⟩ := nodes id member
      rw [shape] at leads
      cases leads
  · intro past cluster action later before known step
    have reached := Cluster.ReachesWhen.reaches before
    exact ⟨ack_replies_step reached step.1 known, ack_matched_step reached step known⟩

theorem Cluster.Move.commitIndex_cases {packet : Option Packet} {id : Int} {node : RaftNode}
    (move : cluster.Move packet id node) :
    (cluster.node id).commitIndex ≤ node.commitIndex ∨
      node.state = .follower ∧ ∃ (term leader : Int) (args : AppendEntriesArgs),
        .appendRequest id term leader args ∈ cluster.net ∧ 0 ≤ args.prevLogIndex ∧
        (cluster.node id).commitIndex < args.leaderCommit ∧
        node.commitIndex = min args.leaderCommit (args.prevLogIndex + args.entries.length) := by
  cases move with
  | start => rcases RaftNode.start_cases (cluster.node id) with same | same <;> exact .inl (by rw [same])
  | @propose command leads => exact .inl (by rw [RaftNode.propose_leader leads])
  | follow inFlight fresh => exact .inl (by rw [RaftNode.seeLeader_eq _ fresh])
  | @accept term leader args _ inFlight fresh matching ran =>
    obtain ⟨prev, located, -⟩ := matching
    obtain ⟨-, follows, -⟩ := RaftNode.acceptEntries_ballot ran
    rw [RaftNode.seeLeader_eq _ fresh] at follows
    rcases RaftNode.acceptEntries_cases ran with rfl | ⟨lastApplied, commits, above, rfl, -⟩
    · left
      rw [RaftNode.seeLeader_eq _ fresh]
      exact Int.le_refl _
    · right
      rw [RaftNode.seeLeader_eq _ fresh] at above
      exact ⟨follows, term, leader, args, inFlight, (logAt_some located).1, above, rfl⟩
  | acknowledge delivers inFlight leads runs current typed accepted ran =>
    rcases RaftNode.commitScan_cases ran with rfl | ⟨n, entry, lastApplied, commits, above, -, -, -, rfl, -⟩
    · exact .inl (Int.le_refl _)
    · exact .inl (Int.le_of_lt above)
  | _ => exact .inl (Int.le_refl _)

theorem commitIndex_nonneg (run : Cluster.Reaches past cluster) {id : Int}
    (member : id ∈ cluster.members) : 0 ≤ (cluster.node id).commitIndex := by
  revert id
  apply run.invariant
  · intro cluster fresh id member
    obtain ⟨peers, onCommit, shape, -⟩ := fresh.2.2.2 id member
    rw [shape]
    exact le_refl _
  · intro past cluster action later before known step id member
    have effect := Cluster.step_effect step
    rw [effect.members] at member
    have old := known member
    rcases (effect.move id).commitIndex_cases with raised | ⟨-, term, leader, args, -, low, above, same⟩
    · exact old.trans raised
    · rw [same]
      omega

theorem counted_quorum (run : CurrentlyReaches past cluster) {id : Int} (member : id ∈ cluster.members)
    (leads : (cluster.node id).state = .leader) {n : Nat} (positive : 0 < n)
    {entry : LogEntry} (located : (cluster.node id).logAt n = some entry)
    (enough : (cluster.node id).clusterSize / 2 < (cluster.node id).matchCount n) :
    ∃ quorum, Majority cluster.members quorum ∧ id ∈ quorum ∧ ∀ voter ∈ quorum,
      Held (cluster :: past) (termLog (cluster :: past)) voter (cluster.node id).currentTerm n := by
  have reaches := Cluster.ReachesWhen.reaches run
  have known := membership reaches.loosely
  have listed := termLog_leader reaches member leads
  have inside := lt_of_getElem? (logAt_some located).2
  rw [Int.toNat_natCast] at inside
  let counted := (cluster.node id).peers.filter fun peer => decide ((cluster.node id).matchIndex peer ≥ n)
  have others : ∀ peer ∈ counted, peer ∈ (cluster.node id).peers ∧ (n : Int) ≤ (cluster.node id).matchIndex peer := by
    intro peer inCounted
    obtain ⟨known_peer, reached⟩ := List.mem_filter.mp inCounted
    exact ⟨known_peer, of_decide_eq_true reached⟩
  have absent : id ∉ counted.toFinset := by
    intro inCounted
    have peer := (others id (List.mem_toFinset.mp inCounted)).1
    exact ((known.peers id member id).mp peer).2 rfl
  refine ⟨insert id counted.toFinset, ⟨?_, ?_⟩, Finset.mem_insert_self _ _, ?_⟩
  · intro voter inQuorum
    rw [List.mem_toFinset]
    rcases Finset.mem_insert.mp inQuorum with rfl | inCounted
    · exact member
    · exact ((known.peers id member voter).mp (others voter (List.mem_toFinset.mp inCounted)).1).1
  · have distinct : counted.Nodup := (known.peers_nodup id member).filter _
    have size : (insert id counted.toFinset).card = (cluster.node id).matchCount n := by
      rw [Finset.card_insert_of_notMem absent, List.toFinset_card_of_nodup distinct, Nat.add_comm]
      rfl
    rw [size]
    rw [known.size id member] at enough
    omega
  · intro voter inQuorum
    rcases Finset.mem_insert.mp inQuorum with rfl | inCounted
    · rw [Held, listed]
      exact ⟨inside, cluster, List.mem_cons_self, rfl, List.take_prefix _ _⟩
    · obtain ⟨peer, reached⟩ := others voter (List.mem_toFinset.mp inCounted)
      rcases (ackInv run).matched id member leads voter peer with low | ⟨matched, level, held⟩
      · omega
      · exact held.lower (by omega)

/-- The step runs AdvanceCommitIndexLocked on `id` and sets its commit index to `n`. -/
def LeaderCommits (cluster : Cluster) (action : Action) (later : Cluster) (id n : Int) : Prop :=
  (∃ peer sent reply, cluster.delivered action = some (.appendReply id peer sent reply)) ∧
    (later.node id).commitIndex ≠ (cluster.node id).commitIndex ∧ (later.node id).commitIndex = n

theorem leaderCommits_cases (step : Cluster.Step cluster action later) {id n : Int}
    (commits : LeaderCommits cluster action later id n) :
    id ∈ later.members ∧ (later.node id).state = .leader ∧ (cluster.node id).commitIndex < n ∧
      ∃ (m : Nat) (entry : LogEntry), n = m ∧ (later.node id).logAt m = some entry ∧
        entry.term = (later.node id).currentTerm ∧
        (later.node id).clusterSize / 2 < (later.node id).matchCount m := by
  obtain ⟨⟨peer, sent, reply, delivers⟩, changed, value⟩ := commits
  have effect := Cluster.step_effect step
  rw [delivers] at effect
  cases effect with
  | appendReply member inFlight kept ran =>
    rw [Cluster.set_same] at changed value ⊢
    rcases RaftNode.handleAppendEntriesReply_cases ran with
      rfl | ⟨-, rfl⟩ | ⟨leads, -, rfl | ⟨-, -, -, advanced⟩⟩
    · exact absurd rfl changed
    · exact absurd rfl changed
    · exact absurd rfl changed
    · rcases RaftNode.commitScan_cases advanced with
        rfl | ⟨m, entry, lastApplied, commits, above, located, current, enough, rfl, -⟩
      · exact absurd rfl changed
      · subst value
        exact ⟨member, leads, above, m, entry, rfl, located, current, enough⟩

/-- The leader `id` has at `n` an entry of its term, and a majority with `id` in it was once in
that term with the leader's log up to `n`. -/
def RealQuorum (visited : List Cluster) (cluster : Cluster) (id n : Int) : Prop :=
  (∃ entry, (cluster.node id).logAt n = some entry ∧ entry.term = (cluster.node id).currentTerm) ∧
  ∃ quorum, Majority cluster.members quorum ∧ id ∈ quorum ∧ ∀ voter ∈ quorum,
    ∃ earlier ∈ visited, (earlier.node voter).currentTerm = (cluster.node id).currentTerm ∧
      (earlier.node voter).log.take (n.toNat + 1) = (cluster.node id).log.take (n.toNat + 1)

/-- Where leaders only take acknowledgements of their own term, every commit has a real quorum. -/
theorem commit_needs_quorum (before : CurrentlyReaches past cluster)
    (step : CurrentStep cluster action later) {id n : Int}
    (commits : LeaderCommits cluster action later id n) :
    RealQuorum (later :: cluster :: past) later id n := by
  have run : CurrentlyReaches (cluster :: past) later := .next before step
  have reaches := Cluster.ReachesWhen.reaches run
  obtain ⟨member, leads, above, m, entry, rfl, located, current, enough⟩ :=
    leaderCommits_cases step.1 commits
  have inCluster : id ∈ cluster.members := (Cluster.step_effect step.1).members ▸ member
  have positive := commitIndex_nonneg (Cluster.ReachesWhen.reaches before) inCluster
  obtain ⟨quorum, majority, own, holds⟩ :=
    counted_quorum run member leads (by omega) located enough
  refine ⟨⟨entry, located, current⟩, quorum, majority, own, fun voter inQuorum => ?_⟩
  obtain ⟨inside, earlier, seen, level, pre⟩ := holds voter inQuorum
  refine ⟨earlier, seen, level, ?_⟩
  rw [termLog_leader reaches member leads] at inside pre
  have size : ((later.node id).log.take (m + 1)).length = m + 1 := by
    rw [List.length_take]
    omega
  have same := take_prefix_take pre size.ge
  rw [List.take_take, min_self] at same
  rw [Int.toNat_natCast]
  exact same.symm

end Step

theorem commit_needs_quorum_trio : ∃ past cluster action later, CurrentlyReaches past cluster ∧
    CurrentStep cluster action later ∧ LeaderCommits cluster action later 1 1 ∧
      RealQuorum (later :: cluster :: past) later 1 1 := by
  have commits : ∃ visited ∈ replay (Cluster.actWhen CurrentReplies) Cluster.trio
      [.start 1, .start 2, .start 3, .startElection 1, .deliver 0, .deliver 1, .propose 1 [0x61],
        .sendHeartbeats 1, .deliver 1],
      ∃ later ∈ Cluster.actWhen CurrentReplies visited.2 (.deliver 2),
        visited.2.delivered (.deliver 2) = some (.appendReply 1 2 1 ⟨.appendEntriesReply, 1, 2, yes⟩) ∧
          (visited.2.node 1).commitIndex = 0 ∧ (later.node 1).commitIndex = 1 := by
    decide +kernel
  obtain ⟨visited, played, later, moved, delivers, before, after⟩ := commits
  have run := Cluster.trio_replay played
  have step := Cluster.actWhen_step moved
  have counted : LeaderCommits visited.2 (.deliver 2) later 1 1 :=
    ⟨⟨_, _, _, delivers⟩, by rw [before, after]; decide, after⟩
  exact ⟨_, _, _, _, run, step, counted, commit_needs_quorum run step counted⟩

/-- Node 2 acknowledges two entries of node 1, which loses them to node 3 and wins again
before the acknowledgement arrives. -/
def staleAcknowledgement : List Action :=
  [.start 1, .start 2, .start 3, .startElection 1, .deliver 0, .deliver 1, .propose 1 [0x61],
    .propose 1 [0x62], .sendHeartbeats 1, .deliver 1, .startElection 3, .startElection 3,
    .deliver 5, .deliver 6, .propose 3 [0x63], .sendHeartbeats 3, .deliver 6, .startElection 1,
    .deliver 9, .deliver 9, .propose 1 [0x64]]

theorem commit_needs_quorum_fails : ¬ ∀ past cluster action later id n,
    Cluster.ReachesWhen Cluster.NoDuplicate past cluster →
    Cluster.StepWhen Cluster.NoDuplicate cluster action later →
    LeaderCommits cluster action later id n → RealQuorum (later :: cluster :: past) later id n := by
  intro real
  have commits : ∃ visited ∈ replay (Cluster.actWhen Cluster.NoDuplicate) Cluster.trio staleAcknowledgement,
      ∃ later ∈ Cluster.actWhen Cluster.NoDuplicate visited.2 (.deliver 2),
        visited.2.delivered (.deliver 2) = some (.appendReply 1 2 2 ⟨.appendEntriesReply, 1, 2, yes⟩) ∧
          (visited.2.node 1).commitIndex = 0 ∧ (later.node 1).commitIndex = 2 ∧
          later.members = [1, 2, 3] ∧
          ∀ earlier ∈ later :: visited.2 :: visited.1, ∀ voter ∈ [(2 : Int), 3],
            ¬ ((earlier.node voter).currentTerm = (later.node 1).currentTerm ∧
              (earlier.node voter).log.take 3 = (later.node 1).log.take 3) := by
    decide +kernel
  obtain ⟨visited, played, later, moved, delivers, before, after, members, absent⟩ := commits
  have counted : LeaderCommits visited.2 (.deliver 2) later 1 2 :=
    ⟨⟨_, _, _, delivers⟩, by rw [before, after]; decide, after⟩
  obtain ⟨-, quorum, majority, -, holds⟩ := real _ _ _ _ 1 2 (Cluster.trio_replay played)
    (Cluster.actWhen_step moved) counted
  rw [members] at majority
  -- two of three members cannot both be node 1
  obtain ⟨voter, inside, other⟩ : ∃ voter ∈ quorum, voter ≠ 1 := by
    by_contra none
    have single : quorum ⊆ {1} := fun voter inside => by
      by_contra different
      exact none ⟨voter, inside, fun same => different (Finset.mem_singleton.mpr same)⟩
    have small := Finset.card_le_card single
    have enough := majority.2
    simp only [List.length_cons, List.length_nil, Finset.card_singleton] at enough small
    omega
  obtain ⟨earlier, seen, level, same⟩ := holds voter inside
  have listed : voter ∈ [(2 : Int), 3] := by
    have member := majority.mem inside
    simpa [other] using member
  exact absent earlier seen voter listed ⟨level, same⟩

end QuorumDB.Raft
