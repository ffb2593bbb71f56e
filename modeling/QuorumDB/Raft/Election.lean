import QuorumDB.Raft.Handlers

/-!
Election safety: one vote for each node and term, so at most one leader for each
term over a whole execution. The invariant ties `voted_for_`, the collected votes
and the vote replies in flight to the votes that were really cast.
-/

namespace QuorumDB.Raft
open Execution Quorum

def VotedIn (visited : List Cluster) (voter term candidate : Int) : Prop :=
  ∃ cluster ∈ visited, (cluster.node voter).currentTerm = term ∧
    (cluster.node voter).votedFor = candidate

def LedIn (visited : List Cluster) (id term : Int) : Prop :=
  ∃ cluster ∈ visited, (cluster.node id).state = .leader ∧ (cluster.node id).currentTerm = term

theorem VotedIn.grow {visited larger : List Cluster} {voter term candidate : Int}
    (voted : VotedIn visited voter term candidate) (grows : visited ⊆ larger) :
    VotedIn larger voter term candidate := by
  obtain ⟨cluster, seen, facts⟩ := voted
  exact ⟨cluster, grows seen, facts⟩

/-- The part of a node that decides who it votes for and whether it leads. -/
inductive BallotMove (granted : Int → Prop) (before after : RaftNode) : Prop where
  | follow (follows : after.state = .follower) (terms : before.currentTerm ≤ after.currentTerm)
      (keeps : after.currentTerm = before.currentTerm → before.votedFor ≠ -1 →
        after.votedFor = before.votedFor)
  | hold (state : after.state = before.state) (term : after.currentTerm = before.currentTerm)
      (vote : after.votedFor = before.votedFor) (votes : after.votesReceived = before.votesReceived)
  | campaign (term : before.currentTerm < after.currentTerm) (vote : after.votedFor = before.nodeId)
      (votes : after.votesReceived = {before.nodeId})
      (outcome : after.state = .candidate ∨ after.state = .leader ∧ after.hasMajority)
  | count (campaigning : before.state = .candidate) (term : after.currentTerm = before.currentTerm)
      (vote : after.votedFor = before.votedFor)
      (votes : ∃ peer, granted peer ∧ after.votesReceived = insert peer before.votesReceived)
      (outcome : after.state = .candidate ∨ after.state = .leader ∧ after.hasMajority)

structure SameIdentity (before after : RaftNode) : Prop where
  nodeId : after.nodeId = before.nodeId
  peers : after.peers = before.peers
  clusterSize : after.clusterSize = before.clusterSize

namespace RaftNode

theorem start_cases (node : RaftNode) : node.start = node ∨
    node.start = { node with running := true, state := .follower, leaderId := -1 } := by
  unfold start
  by_cases runs : node.running = true
  · exact .inl (if_pos runs)
  · exact .inr (if_neg runs)

theorem acceptEntries_ballot {node later : RaftNode} {args : AppendEntriesArgs}
    (ran : node.acceptEntries args = some later) :
    SameIdentity node later ∧ later.state = node.state ∧ later.currentTerm = node.currentTerm ∧
      later.votedFor = node.votedFor := by
  obtain ⟨commitIndex, lastApplied, commits, rfl⟩ := acceptEntries_frame ran
  exact ⟨⟨rfl, rfl, rfl⟩, rfl, rfl, rfl⟩

theorem advance_ballot {node later : RaftNode} (ran : node.advanceCommitIndexLocked = some later) :
    SameIdentity node later ∧ later.state = node.state ∧ later.currentTerm = node.currentTerm ∧
      later.votedFor = node.votedFor ∧ later.votesReceived = node.votesReceived := by
  obtain ⟨commitIndex, lastApplied, commits, rfl⟩ := commitScan_frame ran
  exact ⟨⟨rfl, rfl, rfl⟩, rfl, rfl, rfl, rfl⟩

end RaftNode

/-- A vote reply in flight for `id` in its current term, granting it the vote of `peer`. -/
def GrantInFlight (cluster : Cluster) (id peer : Int) : Prop :=
  ∃ reply, Packet.voteReply id (cluster.node id).currentTerm peer reply ∈ cluster.net ∧
    reply.term = (cluster.node id).currentTerm ∧ reply.payload = yes

namespace Cluster

theorem Move.identity {cluster : Cluster} {packet : Option Packet} {id : Int} {node : RaftNode}
    (move : Move cluster packet id node) : SameIdentity (cluster.node id) node := by
  cases move with
  | start => rcases RaftNode.start_cases (cluster.node id) with same | same <;> rw [same] <;>
      exact ⟨rfl, rfl, rfl⟩
  | propose leads => simp only [RaftNode.propose, leads, ne_eq, not_true_eq_false, ↓reduceIte]
                     exact ⟨rfl, rfl, rfl⟩
  | follow inFlight fresh => rw [RaftNode.seeLeader_eq _ fresh]; exact ⟨rfl, rfl, rfl⟩
  | accept inFlight fresh matching ran =>
    have kept := (RaftNode.acceptEntries_ballot ran).1
    rw [RaftNode.seeLeader_eq _ fresh] at kept
    exact ⟨kept.nodeId, kept.peers, kept.clusterSize⟩
  | acknowledge delivers inFlight leads runs current typed accepted ran =>
    have kept := (RaftNode.advance_ballot ran).1
    exact ⟨kept.nodeId, kept.peers, kept.clusterSize⟩
  | _ => exact ⟨rfl, rfl, rfl⟩

theorem Move.ballot {cluster : Cluster} {packet : Option Packet} {id : Int} {node : RaftNode}
    (move : Move cluster packet id node) :
    BallotMove (GrantInFlight cluster id) (cluster.node id) node := by
  cases move with
  | same => exact .hold rfl rfl rfl rfl
  | start =>
    rcases RaftNode.start_cases (cluster.node id) with same | same <;> rw [same]
    · exact .hold rfl rfl rfl rfl
    · exact .follow rfl (le_refl _) fun _ _ => rfl
  | stop => exact .hold rfl rfl rfl rfl
  | propose leads =>
    simp only [RaftNode.propose, leads, ne_eq, not_true_eq_false, ↓reduceIte]
    exact .hold leads.symm rfl rfl rfl
  | campaign free => exact .campaign (Int.lt_succ _) rfl rfl (.inl rfl)
  | winAlone free majority => exact .campaign (Int.lt_succ _) rfl rfl (.inr ⟨rfl, majority⟩)
  | vote delivers inFlight fresh free =>
    refine .follow rfl fresh fun level taken => ?_
    rcases free with above | empty | again
    · exact absurd level (ne_of_gt above)
    · exact absurd empty taken
    · exact again.symm
  | stepDown above => exact .follow rfl above.le fun level => absurd level (ne_of_gt above)
  | count inFlight campaigning current granted =>
    exact .count campaigning rfl rfl ⟨_, ⟨_, inFlight, current, granted⟩, rfl⟩ (.inl campaigning)
  | win inFlight campaigning current granted majority =>
    exact .count campaigning rfl rfl ⟨_, ⟨_, inFlight, current, granted⟩, rfl⟩
      (.inr ⟨rfl, majority⟩)
  | @follow term leader args inFlight fresh =>
    rw [RaftNode.seeLeader_eq _ fresh]
    refine .follow rfl fresh fun level _ => if_neg ?_
    exact fun above => absurd level (ne_of_gt above)
  | @accept term leader args node inFlight fresh matching ran =>
    obtain ⟨-, state, kept, vote⟩ := RaftNode.acceptEntries_ballot ran
    rw [RaftNode.seeLeader_eq _ fresh] at state kept vote
    refine .follow state (by rw [kept]; exact fresh) fun level _ => vote.trans (if_neg ?_)
    intro above
    rw [kept] at level
    exact absurd level (ne_of_gt above)
  | next leads => exact .hold rfl rfl rfl rfl
  | acknowledge delivers inFlight leads runs current typed accepted ran =>
    obtain ⟨-, state, term, vote, votes⟩ := RaftNode.advance_ballot ran
    exact .hold state term vote votes

end Cluster

theorem BallotMove.term_le {granted : Int → Prop} {before after : RaftNode}
    (move : BallotMove granted before after) : before.currentTerm ≤ after.currentTerm := by
  cases move with
  | follow follows terms keeps => exact terms
  | hold state term vote votes => exact term.ge
  | campaign term vote votes outcome => exact term.le
  | count campaigning term vote votes outcome => exact term.ge

theorem BallotMove.vote_kept {granted : Int → Prop} {before after : RaftNode}
    (move : BallotMove granted before after) (level : after.currentTerm = before.currentTerm)
    (cast : before.votedFor ≠ -1) : after.votedFor = before.votedFor := by
  cases move with
  | follow follows terms keeps => exact keeps level cast
  | hold state term vote votes => exact vote
  | campaign term vote votes outcome => exact absurd level (ne_of_gt term)
  | count campaigning term vote votes outcome => exact vote

structure Membership (past : List Cluster) (cluster : Cluster) : Prop where
  distinct : cluster.members.Nodup
  unlisted : -1 ∉ cluster.members
  constant : ∀ earlier ∈ past, earlier.members = cluster.members
  identity : ∀ id ∈ cluster.members, (cluster.node id).nodeId = id
  size : ∀ id ∈ cluster.members, (cluster.node id).clusterSize = cluster.members.length
  peers_nodup : ∀ id ∈ cluster.members, (cluster.node id).peers.Nodup
  peers : ∀ id ∈ cluster.members, ∀ peer,
    peer ∈ (cluster.node id).peers ↔ peer ∈ cluster.members ∧ peer ≠ id
  terms_nonneg : ∀ id ∈ cluster.members, 0 ≤ (cluster.node id).currentTerm
  terms : ∀ earlier ∈ past, ∀ id, (earlier.node id).currentTerm ≤ (cluster.node id).currentTerm

/-- The votes of an execution, and what is known of them. -/
structure Ballot (past : List Cluster) (cluster : Cluster) : Prop where
  /-- A vote cast is the voter's current vote, or the voter has moved to a later term. -/
  standing : ∀ voter term candidate, candidate ≠ -1 → VotedIn (cluster :: past) voter term candidate →
    term < (cluster.node voter).currentTerm ∨
      term = (cluster.node voter).currentTerm ∧ (cluster.node voter).votedFor = candidate
  once : ∀ voter term first second, first ≠ -1 → second ≠ -1 →
    VotedIn (cluster :: past) voter term first → VotedIn (cluster :: past) voter term second →
    first = second
  own : ∀ id ∈ cluster.members, (cluster.node id).state ≠ .follower → (cluster.node id).votedFor = id
  backed : ∀ id ∈ cluster.members, (cluster.node id).state ≠ .follower →
    ∀ voter ∈ (cluster.node id).votesReceived, voter ∈ cluster.members ∧
      VotedIn (cluster :: past) voter (cluster.node id).currentTerm id
  majority : ∀ id ∈ cluster.members, (cluster.node id).state = .leader → (cluster.node id).hasMajority
  replies : ∀ target electionTerm peer reply,
    .voteReply target electionTerm peer reply ∈ cluster.net → reply.payload = yes →
    peer ∈ cluster.members ∧ VotedIn (cluster :: past) peer electionTerm target

theorem membership_initial {cluster : Cluster} (fresh : cluster.Initial) : Membership [] cluster := by
  obtain ⟨distinct, unlisted, -, nodes⟩ := fresh
  have built : ∀ id ∈ cluster.members, ∃ peers onCommit,
      cluster.node id = RaftNode.new id peers onCommit ∧ peers.Nodup ∧
        ∀ peer, peer ∈ peers ↔ peer ∈ cluster.members ∧ peer ≠ id := nodes
  refine ⟨distinct, unlisted, by simp, ?_, ?_, ?_, ?_, ?_, by simp⟩
  · intro id member
    obtain ⟨peers, onCommit, shape, -⟩ := built id member
    rw [shape]
    rfl
  · intro id member
    obtain ⟨peers, onCommit, shape, nodup, listed⟩ := built id member
    have others : peers.length = (cluster.members.erase id).length := by
      apply List.Perm.length_eq
      rw [List.perm_ext_iff_of_nodup nodup (distinct.erase id)]
      intro peer
      rw [listed, distinct.mem_erase_iff]
      exact and_comm
    rw [shape]
    change peers.length + 1 = cluster.members.length
    rw [others, List.length_erase_of_mem member]
    have positive := List.length_pos_of_mem member
    omega
  · intro id member
    obtain ⟨peers, onCommit, shape, nodup, -⟩ := built id member
    rw [shape]
    exact nodup
  · intro id member peer
    obtain ⟨peers, onCommit, shape, -, listed⟩ := built id member
    rw [shape]
    exact listed peer
  · intro id member
    obtain ⟨peers, onCommit, shape, -⟩ := built id member
    rw [shape]
    exact le_refl _

theorem membership_step {past : List Cluster} {cluster later : Cluster} {packet : Option Packet}
    (known : Membership past cluster) (effect : cluster.Effect packet later) :
    Membership (cluster :: past) later := by
  have members := effect.members
  have moves := fun id => (effect.move id).identity
  have terms := fun id => (effect.move id).ballot.term_le
  refine ⟨?_, ?_, ?_, ?_, ?_, ?_, ?_, ?_, ?_⟩
  · rw [members]
    exact known.distinct
  · rw [members]
    exact known.unlisted
  · intro earlier seen
    rw [members]
    rcases List.mem_cons.mp seen with rfl | inPast
    · rfl
    · exact known.constant earlier inPast
  · intro id member
    rw [members] at member
    rw [(moves id).nodeId]
    exact known.identity id member
  · intro id member
    rw [members] at member ⊢
    rw [(moves id).clusterSize]
    exact known.size id member
  · intro id member
    rw [members] at member
    rw [(moves id).peers]
    exact known.peers_nodup id member
  · intro id member peer
    rw [members] at member ⊢
    rw [(moves id).peers]
    exact known.peers id member peer
  · intro id member
    rw [members] at member
    exact (known.terms_nonneg id member).trans (terms id)
  · intro earlier seen id
    rcases List.mem_cons.mp seen with rfl | inPast
    · exact terms id
    · exact (known.terms earlier inPast id).trans (terms id)

theorem membership_send {past : List Cluster} {cluster : Cluster}
    (known : Membership past cluster) (packets : List Packet) :
    Membership (cluster :: past) (cluster.send packets) :=
  { known with
    constant := fun earlier seen => by
      rcases List.mem_cons.mp seen with rfl | inPast
      · rfl
      · exact known.constant earlier inPast
    terms := fun earlier seen id => by
      rcases List.mem_cons.mp seen with rfl | inPast
      · exact le_refl _
      · exact known.terms earlier inPast id }

theorem membership {past : List Cluster} {cluster : Cluster}
    (run : Cluster.LooselyReaches past cluster) : Membership past cluster := by
  apply run.invariant (fun _ fresh => membership_initial fresh)
  intro past cluster action later before known step
  cases action with
  | inl action => exact membership_step known (Cluster.step_effect step)
  | inr packet =>
    rw [step.2]
    exact membership_send known [packet]

theorem ballot_initial {cluster : Cluster} (fresh : cluster.Initial) : Ballot [] cluster := by
  obtain ⟨-, -, quiet, nodes⟩ := fresh
  have follower : ∀ id ∈ cluster.members, (cluster.node id).state = .follower := by
    intro id member
    obtain ⟨peers, onCommit, shape, -⟩ := nodes id member
    rw [shape]
    rfl
  refine ⟨?_, ?_, ?_, ?_, ?_, ?_⟩
  · rintro voter term candidate - ⟨earlier, seen, level, vote⟩
    rw [List.mem_singleton] at seen
    subst seen
    exact .inr ⟨level.symm, vote⟩
  · rintro voter term first second - - ⟨earlier, seen, -, vote⟩ ⟨other, also, -, again⟩
    rw [List.mem_singleton] at seen also
    subst seen also
    exact vote.symm.trans again
  · exact fun id member active => absurd (follower id member) active
  · exact fun id member active => absurd (follower id member) active
  · intro id member leads
    rw [follower id member] at leads
    cases leads
  · intro target electionTerm peer reply inFlight
    rw [quiet] at inFlight
    simp at inFlight

section Step

variable {past : List Cluster} {cluster later : Cluster} {packet : Option Packet}

theorem voted_split {voter term candidate : Int}
    (voted : VotedIn (later :: cluster :: past) voter term candidate) :
    ((later.node voter).currentTerm = term ∧ (later.node voter).votedFor = candidate) ∨
      VotedIn (cluster :: past) voter term candidate := by
  obtain ⟨earlier, seen, facts⟩ := voted
  rcases List.mem_cons.mp seen with rfl | before
  · exact .inl facts
  · exact .inr ⟨earlier, before, facts⟩

theorem standing_step (known : Ballot past cluster) (effect : cluster.Effect packet later)
    {voter term candidate : Int} (real : candidate ≠ -1)
    (voted : VotedIn (later :: cluster :: past) voter term candidate) :
    term < (later.node voter).currentTerm ∨
      term = (later.node voter).currentTerm ∧ (later.node voter).votedFor = candidate := by
  rcases voted_split voted with ⟨level, vote⟩ | before
  · exact .inr ⟨level.symm, vote⟩
  · have move := (effect.move voter).ballot
    have grows := move.term_le
    rcases known.standing voter term candidate real before with passed | ⟨level, vote⟩
    · exact .inl (by omega)
    · by_cases same : (later.node voter).currentTerm = (cluster.node voter).currentTerm
      · refine .inr ⟨by omega, ?_⟩
        rw [move.vote_kept same (by rw [vote]; exact real), vote]
      · exact .inl (by omega)

theorem ballot_step (members : Membership past cluster) (known : Ballot past cluster)
    (effect : cluster.Effect packet later) : Ballot (cluster :: past) later := by
  have grow : cluster :: past ⊆ later :: cluster :: past := List.subset_cons_self _ _
  have standing : ∀ voter term candidate, candidate ≠ -1 →
      VotedIn (later :: cluster :: past) voter term candidate →
      term < (later.node voter).currentTerm ∨
        term = (later.node voter).currentTerm ∧ (later.node voter).votedFor = candidate :=
    fun _ _ _ real voted => standing_step known effect real voted
  refine ⟨standing, ?_, ?_, ?_, ?_, ?_⟩
  · intro voter term first second firstReal secondReal one two
    rcases voted_split one with ⟨level, vote⟩ | oneBefore
    · rcases standing voter term second secondReal two with passed | ⟨-, other⟩
      · omega
      · exact vote.symm.trans other
    · rcases voted_split two with ⟨level, vote⟩ | twoBefore
      · rcases standing voter term first firstReal one with passed | ⟨-, other⟩
        · omega
        · exact other.symm.trans vote
      · exact known.once voter term first second firstReal secondReal oneBefore twoBefore
  · intro id member active
    rw [effect.members] at member
    cases (effect.move id).ballot with
    | follow follows terms keeps => exact absurd follows active
    | hold state term vote votes =>
      rw [vote]
      exact known.own id member (by rw [← state]; exact active)
    | campaign term vote votes outcome => rw [vote, members.identity id member]
    | count campaigning term vote votes outcome =>
      rw [vote]
      exact known.own id member (by rw [campaigning]; decide)
  · intro id member active voter counted
    rw [effect.members] at member ⊢
    cases (effect.move id).ballot with
    | follow follows terms keeps => exact absurd follows active
    | hold state term vote votes =>
      rw [votes] at counted
      rw [term]
      obtain ⟨inside, voted⟩ := known.backed id member (by rw [← state]; exact active) voter counted
      exact ⟨inside, voted.grow grow⟩
    | campaign term vote votes outcome =>
      rw [votes, Finset.mem_singleton, members.identity id member] at counted
      subst counted
      exact ⟨member, later, List.mem_cons_self, rfl, by rw [vote, members.identity voter member]⟩
    | count campaigning term vote votes outcome =>
      obtain ⟨peer, ⟨reply, inFlight, current, granted⟩, shape⟩ := votes
      rw [shape, Finset.mem_insert] at counted
      rw [term]
      rcases counted with rfl | old
      · obtain ⟨inside, voted⟩ := known.replies _ _ _ _ inFlight granted
        exact ⟨inside, voted.grow grow⟩
      · obtain ⟨inside, voted⟩ := known.backed id member (by rw [campaigning]; decide) voter old
        exact ⟨inside, voted.grow grow⟩
  · intro id member leads
    rw [effect.members] at member
    cases (effect.move id).ballot with
    | follow follows terms keeps =>
      rw [follows] at leads
      cases leads
    | hold state term vote votes =>
      have before := known.majority id member (by rw [← state]; exact leads)
      unfold RaftNode.hasMajority at before ⊢
      rw [votes, (effect.move id).identity.clusterSize]
      exact before
    | campaign term vote votes outcome =>
      rcases outcome with candidate | ⟨-, enough⟩
      · rw [candidate] at leads
        cases leads
      · exact enough
    | count campaigning term vote votes outcome =>
      rcases outcome with candidate | ⟨-, enough⟩
      · rw [candidate] at leads
        cases leads
      · exact enough
  · intro target electionTerm peer reply inFlight granted
    rw [effect.members]
    rcases effect.sent inFlight with before | sent
    · obtain ⟨inside, voted⟩ := known.replies _ _ _ _ before granted
      exact ⟨inside, voted.grow grow⟩
    · cases sent with
      | refusal refused =>
        rw [refused] at granted
        exact absurd granted (by decide)
      | grant member asked voter =>
        refine ⟨member, later, List.mem_cons_self, ?_, ?_⟩ <;> rw [voter] <;> rfl

theorem ballot_send (known : Ballot past cluster) {forged : Packet} (append : forged.isAppend = true) :
    Ballot (cluster :: past) (cluster.send [forged]) := by
  have same : ∀ voter term candidate,
      VotedIn (cluster.send [forged] :: cluster :: past) voter term candidate →
        VotedIn (cluster :: past) voter term candidate := by
    intro voter term candidate voted
    rcases voted_split voted with now | before
    · exact ⟨cluster, List.mem_cons_self, now⟩
    · exact before
  have grow : cluster :: past ⊆ cluster.send [forged] :: cluster :: past := List.subset_cons_self _ _
  refine ⟨fun voter term candidate real voted => known.standing _ _ _ real (same _ _ _ voted),
    fun voter term first second one two left right =>
      known.once _ _ _ _ one two (same _ _ _ left) (same _ _ _ right),
    known.own, ?_, known.majority, ?_⟩
  · intro id member active voter counted
    obtain ⟨inside, voted⟩ := known.backed id member active voter counted
    exact ⟨inside, voted.grow grow⟩
  · intro target electionTerm peer reply inFlight granted
    rcases List.mem_append.mp inFlight with before | added
    · obtain ⟨inside, voted⟩ := known.replies _ _ _ _ before granted
      exact ⟨inside, voted.grow grow⟩
    · rw [← List.mem_singleton.mp added] at append
      cases append

end Step

theorem ballot {past : List Cluster} {cluster : Cluster}
    (run : Cluster.LooselyReaches past cluster) : Ballot past cluster := by
  apply run.invariant (fun _ fresh => ballot_initial fresh)
  intro past cluster action later before known step
  cases action with
  | inl action => exact ballot_step (membership before) known (Cluster.step_effect step)
  | inr packet =>
    rw [step.2]
    exact ballot_send known step.1

/-- A leader holds the votes of a majority, cast in its term. -/
theorem leader_majority {past : List Cluster} {cluster : Cluster} (run : Cluster.LooselyReaches past cluster)
    {id : Int} (member : id ∈ cluster.members) (leads : (cluster.node id).state = .leader) :
    ∃ quorum, Majority cluster.members quorum ∧
      ∀ voter ∈ quorum, VotedIn (cluster :: past) voter (cluster.node id).currentTerm id := by
  have known := ballot run
  have active : (cluster.node id).state ≠ .follower := by rw [leads]; decide
  refine ⟨(cluster.node id).votesReceived, ⟨fun voter counted => ?_, ?_⟩, fun voter counted => ?_⟩
  · exact List.mem_toFinset.mpr (known.backed id member active voter counted).1
  · have enough := known.majority id member leads
    unfold RaftNode.hasMajority at enough
    rw [(membership run).size id member] at enough
    omega
  · exact (known.backed id member active voter counted).2

theorem led_majority {past : List Cluster} {cluster : Cluster} (run : Cluster.LooselyReaches past cluster)
    {id term : Int} (member : id ∈ cluster.members) (led : LedIn (cluster :: past) id term) :
    ∃ quorum, Majority cluster.members quorum ∧
      ∀ voter ∈ quorum, VotedIn (cluster :: past) voter term id := by
  obtain ⟨earlier, seen, leads, level⟩ := led
  have constant : earlier.members = cluster.members := by
    rcases List.mem_cons.mp seen with rfl | inPast
    · rfl
    · exact (membership run).constant earlier inPast
  obtain ⟨older, shorter, within⟩ := run.visited seen
  obtain ⟨quorum, majority, votes⟩ := leader_majority shorter (constant ▸ member) leads
  refine ⟨quorum, constant ▸ majority, fun voter inside => ?_⟩
  have voted := votes voter inside
  rw [level] at voted
  exact voted.grow within.subset

theorem led_unique {past : List Cluster} {cluster : Cluster}
    (run : Cluster.LooselyReaches past cluster) {first second term : Int}
    (firstMember : first ∈ cluster.members) (secondMember : second ∈ cluster.members)
    (firstLed : LedIn (cluster :: past) first term)
    (secondLed : LedIn (cluster :: past) second term) : first = second := by
  obtain ⟨left, leftMajority, leftVotes⟩ := led_majority run firstMember firstLed
  obtain ⟨right, rightMajority, rightVotes⟩ := led_majority run secondMember secondLed
  obtain ⟨voter, inLeft, inRight⟩ := leftMajority.common rightMajority
  have unlisted := (membership run).unlisted
  exact (ballot run).once voter term first second (fun same => unlisted (same ▸ firstMember))
    (fun same => unlisted (same ▸ secondMember)) (leftVotes voter inLeft) (rightVotes voter inRight)

/-- In the states passed through, at most one member ever led each term. -/
def OneLeader (members : List Int) (visited : List Cluster) : Prop :=
  ∀ term, ∀ first ∈ members, ∀ second ∈ members, ∀ earlier ∈ visited, ∀ other ∈ visited,
    (earlier.node first).state = .leader → (earlier.node first).currentTerm = term →
    (other.node second).state = .leader → (other.node second).currentTerm = term → first = second

/-- Election safety, whatever AppendEntries traffic turns up in the execution. -/
theorem election_safety {past : List Cluster} {cluster : Cluster}
    (run : Cluster.LooselyReaches past cluster) : OneLeader cluster.members (cluster :: past) :=
  fun _ _ firstMember _ secondMember earlier seen other also leads level leadsToo levelToo =>
    led_unique run firstMember secondMember ⟨earlier, seen, leads, level⟩
      ⟨other, also, leadsToo, levelToo⟩

theorem election_safety_trio : ∃ past cluster, Cluster.LooselyReaches past cluster ∧
    (cluster.node 1).state = .leader ∧ OneLeader cluster.members (cluster :: past) := by
  have elected : ∃ visited ∈ replay (Cluster.actWhen Cluster.NoDuplicate) Cluster.trio
      [.start 1, .start 2, .startElection 1, .deliver 0, .deliver 1],
      (visited.2.node 1).state = .leader := by
    decide +kernel
  obtain ⟨visited, played, leads⟩ := elected
  have run := (Cluster.ReachesWhen.reaches (Cluster.trio_replay played)).loosely
  exact ⟨_, _, run, leads, election_safety run⟩

end QuorumDB.Raft
