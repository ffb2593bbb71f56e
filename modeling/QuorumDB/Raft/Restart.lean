import QuorumDB.Raft.Election

/-!
Processes that end and are started anew. A node keeps nothing on disk, so that the new process has
forgotten its term and its vote. Where a term gets two leaders, some voter was such a process.
-/

namespace QuorumDB.Raft
open Execution Quorum

def Packet.awaitedBy (id : Int) : Packet → Bool
  | .voteReply target _ _ _ => target == id
  | .appendReply target _ _ _ => target == id
  | .voteRequest .. | .appendRequest .. => false

namespace Cluster

/-- A new process with the arguments of the old one. The threads that waited for replies are gone;
what they sent may still arrive. -/
def restart (cluster : Cluster) (id : Int) : Cluster where
  members := cluster.members
  node := Function.update cluster.node id (RaftNode.new id (cluster.node id).peers (cluster.node id).onCommit)
  net := cluster.net.filter fun packet => !packet.awaitedBy id

def actOrRestart (cluster : Cluster) : Action ⊕ Int → Option Cluster
  | .inl action => cluster.act action
  | .inr id => if id ∈ cluster.members then some (cluster.restart id) else none

/-- Executions in which any process may be started anew at any time. -/
abbrev RestartReaches : List Cluster → Cluster → Prop :=
  Run Initial fun cluster move later => cluster.actOrRestart move = some later

theorem restart_same (cluster : Cluster) (id : Int) :
    (cluster.restart id).node id = RaftNode.new id (cluster.node id).peers (cluster.node id).onCommit :=
  Function.update_self ..

theorem restart_other (cluster : Cluster) {id other : Int} (different : other ≠ id) :
    (cluster.restart id).node other = cluster.node other :=
  Function.update_of_ne different _ _

end Cluster

def Forgot (visited : List Cluster) (voter term first second : Int) : Prop :=
  ∃ voted before again : Cluster, [again, before.restart voter, voted].Sublist visited ∧
    ((voted.node voter).currentTerm = term ∧ (voted.node voter).votedFor = first) ∧
    (again.node voter).currentTerm = term ∧ (again.node voter).votedFor = second

/-- What executions with restarts keep. The votes that are counted were cast at some time. -/
structure Votes (past : List Cluster) (cluster : Cluster) : Prop where
  unlisted : -1 ∉ cluster.members
  constant : ∀ earlier ∈ past, earlier.members = cluster.members
  identity : ∀ id ∈ cluster.members, (cluster.node id).nodeId = id
  size : ∀ id ∈ cluster.members, (cluster.node id).clusterSize = cluster.members.length
  peers : ∀ id ∈ cluster.members, (cluster.node id).peers.length + 1 = cluster.members.length
  low : ∀ id ∈ cluster.members, 0 ≤ (cluster.node id).currentTerm
  begun : ∀ id ∈ cluster.members, (cluster.node id).state ≠ .follower → 0 < (cluster.node id).currentTerm
  backed : ∀ id ∈ cluster.members, (cluster.node id).state ≠ .follower →
    ∀ voter ∈ (cluster.node id).votesReceived, voter ∈ cluster.members ∧
      VotedIn (cluster :: past) voter (cluster.node id).currentTerm id
  majority : ∀ id ∈ cluster.members, (cluster.node id).state = .leader → (cluster.node id).hasMajority
  replies : ∀ target term peer reply, .voteReply target term peer reply ∈ cluster.net → reply.payload = yes →
    peer ∈ cluster.members ∧ VotedIn (cluster :: past) peer term target

section Steps

variable {past : List Cluster} {cluster later : Cluster} {packet : Option Packet} {id : Int}

theorem votes_initial (fresh : cluster.Initial) : Votes [] cluster := by
  have book := membership_initial fresh
  have ballot := ballot_initial fresh
  have follower : ∀ id ∈ cluster.members, (cluster.node id).state = .follower ∧
      (cluster.node id).peers.length + 1 = (cluster.node id).clusterSize := by
    intro id member
    obtain ⟨peers, onCommit, shape, -⟩ := fresh.2.2.2 id member
    rw [shape]
    exact ⟨rfl, rfl⟩
  exact ⟨book.unlisted, book.constant, book.identity, book.size,
    fun id member => (follower id member).2.trans (book.size id member), book.terms_nonneg,
    fun id member active => absurd (follower id member).1 active, ballot.backed, ballot.majority, ballot.replies⟩

theorem votes_step (known : Votes past cluster) (effect : cluster.Effect packet later) : Votes (cluster :: past) later := by
  have members := effect.members
  have moves := fun id => (effect.move id).identity
  have grow : cluster :: past ⊆ later :: cluster :: past := List.subset_cons_self _ _
  refine ⟨?_, ?_, ?_, ?_, ?_, ?_, ?_, ?_, ?_, ?_⟩
  · rw [members]
    exact known.unlisted
  · intro earlier seen
    rw [members]
    rcases List.mem_cons.mp seen with rfl | inPast
    · rfl
    · exact known.constant earlier inPast
  · intro id member
    rw [(moves id).nodeId]
    exact known.identity id (members ▸ member)
  · intro id member
    rw [(moves id).clusterSize, members]
    exact known.size id (members ▸ member)
  · intro id member
    rw [(moves id).peers, members]
    exact known.peers id (members ▸ member)
  · intro id member
    exact (known.low id (members ▸ member)).trans (effect.move id).ballot.term_le
  · intro id member active
    rw [members] at member
    have low := known.low id member
    cases (effect.move id).ballot with
    | follow follows terms keeps => exact absurd follows active
    | hold state term vote votes =>
      rw [term]
      exact known.begun id member (by rw [← state]; exact active)
    | campaign term vote votes outcome => omega
    | count campaigning term vote votes outcome =>
      rw [term]
      exact known.begun id member (by rw [campaigning]; decide)
  · intro id member active voter counted
    rw [members] at member ⊢
    cases (effect.move id).ballot with
    | follow follows terms keeps => exact absurd follows active
    | hold state term vote votes =>
      rw [votes] at counted
      rw [term]
      obtain ⟨inside, voted⟩ := known.backed id member (by rw [← state]; exact active) voter counted
      exact ⟨inside, voted.grow grow⟩
    | campaign term vote votes outcome =>
      rw [votes, Finset.mem_singleton, known.identity id member] at counted
      subst counted
      exact ⟨member, later, List.mem_cons_self, rfl, by rw [vote, known.identity voter member]⟩
    | count campaigning term vote votes outcome =>
      obtain ⟨peer, ⟨reply, inFlight, current, granted⟩, shape⟩ := votes
      rw [shape, Finset.mem_insert] at counted
      rw [term]
      rcases counted with rfl | old
      · obtain ⟨inside, voted⟩ := known.replies _ _ _ _ inFlight granted
        exact ⟨inside, voted.grow grow⟩
      · obtain ⟨inside, voted⟩ := known.backed id member (by rw [campaigning]; decide) voter old
        exact ⟨inside, voted.grow grow⟩
  · intro id member leads
    rw [members] at member
    cases (effect.move id).ballot with
    | follow follows terms keeps => cases follows.symm.trans leads
    | hold state term vote votes =>
      have before := known.majority id member (by rw [← state]; exact leads)
      unfold RaftNode.hasMajority at before ⊢
      rw [votes, (moves id).clusterSize]
      exact before
    | campaign term vote votes outcome =>
      rcases outcome with candidate | ⟨-, enough⟩
      · cases candidate.symm.trans leads
      · exact enough
    | count campaigning term vote votes outcome =>
      rcases outcome with candidate | ⟨-, enough⟩
      · cases candidate.symm.trans leads
      · exact enough
  · intro target term peer reply inFlight granted
    rw [members]
    rcases effect.sent inFlight with before | sent
    · obtain ⟨inside, voted⟩ := known.replies _ _ _ _ before granted
      exact ⟨inside, voted.grow grow⟩
    · cases sent with
      | refusal refused =>
        rw [refused] at granted
        exact absurd granted (by decide)
      | grant member asked voter =>
        refine ⟨member, later, List.mem_cons_self, ?_, ?_⟩ <;> rw [voter] <;> rfl

theorem votes_restart (known : Votes past cluster) : Votes (cluster :: past) (cluster.restart id) := by
  have grow : cluster :: past ⊆ cluster.restart id :: cluster :: past := List.subset_cons_self _ _
  have each : ∀ {holds : Int → RaftNode → Prop}, (∀ other ∈ cluster.members, holds other (cluster.node other)) →
      (id ∈ cluster.members → holds id (RaftNode.new id (cluster.node id).peers (cluster.node id).onCommit)) →
      ∀ other ∈ cluster.members, holds other ((cluster.restart id).node other) := by
    intro holds old new other member
    by_cases same : other = id
    · subst same
      rw [Cluster.restart_same]
      exact new member
    · rw [Cluster.restart_other cluster same]
      exact old other member
  refine ⟨known.unlisted, ?_, ?_, ?_, ?_, ?_, ?_, ?_, ?_, ?_⟩
  · intro earlier seen
    rcases List.mem_cons.mp seen with rfl | inPast
    · rfl
    · exact known.constant earlier inPast
  · exact @each (fun other node => node.nodeId = other) known.identity fun _ => rfl
  · exact @each (fun _ node => node.clusterSize = cluster.members.length) known.size fun member => known.peers id member
  · exact @each (fun _ node => node.peers.length + 1 = cluster.members.length) known.peers fun member => known.peers id member
  · exact @each (fun _ node => 0 ≤ node.currentTerm) known.low fun _ => le_refl _
  · exact @each (fun _ node => node.state ≠ .follower → 0 < node.currentTerm) known.begun fun _ active => absurd rfl active
  · apply @each fun other node => node.state ≠ .follower → ∀ voter ∈ node.votesReceived, voter ∈ cluster.members ∧
      VotedIn (cluster.restart id :: cluster :: past) voter node.currentTerm other
    · intro other member active voter counted
      obtain ⟨inside, voted⟩ := known.backed other member active voter counted
      exact ⟨inside, voted.grow grow⟩
    · exact fun _ active => absurd rfl active
  · exact @each (fun _ node => node.state = .leader → node.hasMajority) known.majority fun _ leads => absurd leads (by
      change RaftState.follower ≠ .leader
      decide)
  · intro target term peer reply inFlight granted
    obtain ⟨inside, voted⟩ := known.replies target term peer reply (List.mem_filter.mp inFlight).1 granted
    exact ⟨inside, voted.grow grow⟩

theorem votes (run : Cluster.RestartReaches past cluster) : Votes past cluster := by
  apply run.invariant (fun _ fresh => votes_initial fresh)
  intro past cluster move later before known step
  cases move with
  | inl action => exact votes_step known (Cluster.step_effect step)
  | inr id =>
    obtain ⟨-, shape⟩ := Cluster.guarded step
    obtain rfl := Option.some.inj shape
    exact votes_restart known

end Steps

section Forgetting

variable {past older : List Cluster} {cluster earlier : Cluster} {voter term first second : Int}

theorem restarted_majority (run : Cluster.RestartReaches past cluster) (member : first ∈ cluster.members)
    (led : LedIn (cluster :: past) first term) :
    0 < term ∧ ∃ quorum, Majority cluster.members quorum ∧ ∀ voter ∈ quorum, VotedIn (cluster :: past) voter term first := by
  obtain ⟨state, seen, leads, level⟩ := led
  obtain ⟨before, shorter, within⟩ := run.visited seen
  have known := votes shorter
  have same : state.members = cluster.members := by
    rcases List.mem_cons.mp seen with rfl | inPast
    · rfl
    · exact (votes run).constant state inPast
  have inside : first ∈ state.members := same ▸ member
  have active : (state.node first).state ≠ .follower := by
    rw [leads]
    decide
  have begun := known.begun first inside active
  rw [level] at begun
  refine ⟨begun, (state.node first).votesReceived, ⟨fun voter counted => ?_, ?_⟩, fun voter counted => ?_⟩
  · rw [← same]
    exact List.mem_toFinset.mpr (known.backed first inside active voter counted).1
  · have enough := known.majority first inside leads
    unfold RaftNode.hasMajority at enough
    rw [known.size first inside, same] at enough
    omega
  · have voted := (known.backed first inside active voter counted).2
    rw [level] at voted
    exact voted.grow within.subset

/-- After a vote the voter keeps it while it stays in the term, or its process was started anew. -/
theorem keeps_or_restarts (run : Cluster.RestartReaches past cluster) (within : earlier :: older <:+ cluster :: past)
    (real : first ≠ -1) (level : (earlier.node voter).currentTerm = term) (vote : (earlier.node voter).votedFor = first) :
    earlier ∈ cluster :: past ∧
      ((term ≤ (cluster.node voter).currentTerm ∧
          ((cluster.node voter).currentTerm = term → (cluster.node voter).votedFor = first)) ∨
        ∃ before : Cluster, [before.restart voter, earlier].Sublist (cluster :: past)) := by
  refine @Run.onward _ _ _ _ (fun past state => earlier ∈ state :: past ∧ ((term ≤ (state.node voter).currentTerm ∧
      ((state.node voter).currentTerm = term → (state.node voter).votedFor = first)) ∨
        ∃ before : Cluster, [before.restart voter, earlier].Sublist (state :: past))) earlier older
    ⟨List.mem_cons_self, .inl ⟨level.ge, fun _ => vote⟩⟩ ?_ _ _ run within
  rintro past state move later - ⟨seen, kept | ⟨before, restarted⟩⟩ step
  · refine ⟨List.mem_cons_of_mem _ seen, ?_⟩
    cases move with
    | inl action =>
      have ballot := ((Cluster.step_effect step).move voter).ballot
      have grows := ballot.term_le
      refine .inl ⟨kept.1.trans grows, fun still => ?_⟩
      have same : (later.node voter).currentTerm = (state.node voter).currentTerm := by
        have low := kept.1
        omega
      have before := kept.2 (same.symm.trans still)
      rw [ballot.vote_kept same (by rw [before]; exact real), before]
    | inr id =>
      obtain ⟨-, shape⟩ := Cluster.guarded step
      obtain rfl := Option.some.inj shape
      by_cases same : voter = id
      · subst same
        exact .inr ⟨state, List.Sublist.cons_cons _ (List.singleton_sublist.mpr seen)⟩
      · rw [Cluster.restart_other state same]
        exact .inl kept
  · exact ⟨List.mem_cons_of_mem _ seen, .inr ⟨before, restarted.cons _⟩⟩

theorem forgot_between (run : Cluster.RestartReaches past cluster) {again : Cluster} {newer : List Cluster}
    (last : again :: newer <:+ cluster :: past) (within : earlier :: older <:+ again :: newer) (real : first ≠ -1)
    (different : first ≠ second) (positive : 0 < term) (level : (earlier.node voter).currentTerm = term)
    (vote : (earlier.node voter).votedFor = first) (levelAgain : (again.node voter).currentTerm = term)
    (voteAgain : (again.node voter).votedFor = second) : Forgot (cluster :: past) voter term first second := by
  obtain ⟨-, ⟨-, kept⟩ | ⟨before, restarted⟩⟩ := keeps_or_restarts (run.earlier last) within real level vote
  · exact absurd ((kept levelAgain).symm.trans voteAgain) different
  · have fresh : before.restart voter ≠ again := by
      rintro rfl
      rw [Cluster.restart_same] at levelAgain
      change (0 : Int) = term at levelAgain
      omega
    have inside : [before.restart voter, earlier].Sublist newer := by
      cases restarted with
      | cons _ inNewer => exact inNewer
      | cons_cons _ _ => exact absurd rfl fresh
    exact ⟨earlier, before, again, (inside.cons_cons again).trans last.sublist, ⟨level, vote⟩, levelAgain, voteAgain⟩

/-- Where a term had two leaders, some member voted for one of them, was started anew, and voted for
the other in the same term. -/
theorem two_leaders_forgot (run : Cluster.RestartReaches past cluster) (firstMember : first ∈ cluster.members)
    (secondMember : second ∈ cluster.members) (different : first ≠ second) (firstLed : LedIn (cluster :: past) first term)
    (secondLed : LedIn (cluster :: past) second term) : ∃ voter ∈ cluster.members,
      Forgot (cluster :: past) voter term first second ∨ Forgot (cluster :: past) voter term second first := by
  obtain ⟨positive, left, leftMajority, leftVotes⟩ := restarted_majority run firstMember firstLed
  obtain ⟨-, right, rightMajority, rightVotes⟩ := restarted_majority run secondMember secondLed
  obtain ⟨voter, inLeft, inRight⟩ := leftMajority.common rightMajority
  obtain ⟨one, oneSeen, oneLevel, oneVote⟩ := leftVotes voter inLeft
  obtain ⟨two, twoSeen, twoLevel, twoVote⟩ := rightVotes voter inRight
  have unlisted := (votes run).unlisted
  have real : ∀ {id : Int}, id ∈ cluster.members → id ≠ -1 := fun member same => unlisted (same ▸ member)
  obtain ⟨older, -, oneWithin⟩ := run.visited oneSeen
  obtain ⟨newer, -, twoWithin⟩ := run.visited twoSeen
  refine ⟨voter, leftMajority.mem inLeft, ?_⟩
  rcases List.suffix_or_suffix_of_suffix oneWithin twoWithin with earlier | later
  · exact .inl (forgot_between run twoWithin earlier (real firstMember) different positive oneLevel oneVote twoLevel twoVote)
  · exact .inr (forgot_between run oneWithin later (real secondMember) different.symm positive twoLevel twoVote oneLevel oneVote)

end Forgetting

/-- Node 2 votes for node 1, is started anew, and votes for node 3. -/
theorem two_leaders_forgot_trio : ∃ past cluster, Cluster.RestartReaches past cluster ∧
    LedIn (cluster :: past) 1 1 ∧ LedIn (cluster :: past) 3 1 ∧ ∃ voter ∈ cluster.members,
      Forgot (cluster :: past) voter 1 1 3 ∨ Forgot (cluster :: past) voter 1 3 1 := by
  have elected : ∃ visited ∈ replay Cluster.actOrRestart Cluster.trio
      [.inl (.start 1), .inl (.start 2), .inl (.start 3), .inl (.startElection 1), .inl (.deliver 0), .inl (.deliver 1),
        .inr 2, .inl (.start 2), .inl (.startElection 3), .inl (.deliver 2), .inl (.deliver 2)],
      visited.2.members = [1, 2, 3] ∧ (visited.2.node 1).state = .leader ∧ (visited.2.node 1).currentTerm = 1 ∧
        (visited.2.node 3).state = .leader ∧ (visited.2.node 3).currentTerm = 1 := by
    decide +kernel
  obtain ⟨visited, played, members, leads, level, leadsToo, levelToo⟩ := elected
  have run : Cluster.RestartReaches visited.1 visited.2 := by
    have extended := Run.append_replay (.start Cluster.trio_initial) played
    rw [List.append_nil] at extended
    exact extended
  have one : LedIn (visited.2 :: visited.1) 1 1 := ⟨_, List.mem_cons_self, leads, level⟩
  have three : LedIn (visited.2 :: visited.1) 3 1 := ⟨_, List.mem_cons_self, leadsToo, levelToo⟩
  exact ⟨_, _, run, one, three, two_leaders_forgot run (by rw [members]; decide) (by rw [members]; decide) (by decide) one three⟩

end QuorumDB.Raft
