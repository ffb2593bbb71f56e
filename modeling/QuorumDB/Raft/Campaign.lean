import QuorumDB.Lib.Attain
import QuorumDB.Raft.CatchUp
import QuorumDB.Raft.LeaderCommit
import QuorumDB.Raft.Permanence
import Mathlib.Data.Finset.Max
import Mathlib.Data.Prod.Lex

/-!
Elections that succeed. From any state of a careful execution a majority whose nodes run can elect
one of its members, without any other node and without a restart or a lost message. The one to
campaign is the member with the most recent log, since every other member may vote for it.
-/

namespace QuorumDB.Raft
open Execution Quorum

/-- The receiver takes the message, which a request of a leader may be too long for. -/
def Packet.Fits : Packet → Prop
  | .appendRequest _ _ _ args => 41 + entriesSize args.entries ≤ Rpc.maxMessageSize
  | .voteRequest .. | .voteReply .. | .appendReply .. => True

/-- Only members of the quorum act. Nothing is started, stopped, lost or duplicated, and nothing that is delivered
is too long. -/
def Within (quorum : Finset Int) (cluster : Cluster) : Action → Prop
  | .startElection id => id ∈ quorum
  | .propose id _ => id ∈ quorum
  | .sendHeartbeats id => id ∈ quorum
  | .deliver position => ∀ packet ∈ cluster.net[position]?, packet.target ∈ quorum ∧ packet.Fits
  | .start _ | .stop _ | .drop _ | .duplicate _ => False

abbrev QuorumStep (quorum : Finset Int) : Cluster → Action → Cluster → Prop :=
  Cluster.StepWhen fun cluster action => Careful cluster action ∧ Within quorum cluster action

/-- A majority of two or more nodes, all running, in a state of a careful execution. -/
structure Underway (quorum : Finset Int) (cluster : Cluster) : Prop where
  reached : ∃ past, CarefullyReaches past cluster
  majority : Majority cluster.members quorum
  several : 2 ≤ cluster.members.length
  running : ∀ id ∈ quorum, (cluster.node id).running = true

structure Puts (cluster later : Cluster) (id : Int) (node : RaftNode) (packets : List Packet) : Prop where
  members : later.members = cluster.members
  node : later.node = Function.update cluster.node id node
  sent : ∀ packet ∈ packets, packet ∈ later.net

section Steps

variable {quorum : Finset Int} {cluster later : Cluster} {action : Action} {id : Int} {node : RaftNode} {packets : List Packet}

theorem QuorumStep.careful (step : QuorumStep quorum cluster action later) : CarefulStep cluster action later :=
  ⟨step.1, step.2.1⟩

theorem Puts.here (puts : Puts cluster later id node packets) : later.node id = node := by
  rw [puts.node, Function.update_self]

theorem Puts.other (puts : Puts cluster later id node packets) {other : Int} (different : other ≠ id) :
    later.node other = cluster.node other := by
  rw [puts.node, Function.update_of_ne different]

theorem Puts.all (puts : Puts cluster later id node packets) {holds : Int → RaftNode → Prop}
    (known : ∀ other ∈ quorum, holds other (cluster.node other)) (new : holds id node) :
    ∀ other ∈ quorum, holds other (later.node other) := by
  intro other member
  by_cases same : other = id
  · rw [same, puts.here]
    exact new
  · rw [puts.other same]
    exact known other member

theorem Puts.again (first : Puts cluster later id node packets) {last : Cluster} {other : RaftNode} {sent : List Packet}
    (second : Puts later last id other sent) : Puts cluster last id other sent := by
  refine ⟨second.members.trans first.members, ?_, second.sent⟩
  rw [second.node, first.node, Function.update_idem]

theorem Underway.after (known : Underway quorum cluster) (step : QuorumStep quorum cluster action later)
    (puts : Puts cluster later id node packets) (runs : node.running = true) : Underway quorum later := by
  obtain ⟨past, run⟩ := known.reached
  refine ⟨⟨cluster :: past, .next run step.careful⟩, ?_, ?_, ?_⟩
  · rw [puts.members]
    exact known.majority
  · rw [puts.members]
    exact known.several
  · exact @Puts.all _ _ _ _ _ _ puts (fun _ node => node.running = true) known.running runs

theorem Underway.mem (known : Underway quorum cluster) (member : id ∈ quorum) : id ∈ cluster.members :=
  known.majority.mem member

theorem Underway.membership (known : Underway quorum cluster) : ∃ past, Membership past cluster := by
  obtain ⟨past, run⟩ := known.reached
  exact ⟨past, QuorumDB.Raft.membership (Cluster.ReachesWhen.reaches run).loosely⟩

theorem Underway.identity (known : Underway quorum cluster) (member : id ∈ quorum) : (cluster.node id).nodeId = id := by
  obtain ⟨past, book⟩ := known.membership
  exact book.identity id (known.mem member)

theorem Underway.size (known : Underway quorum cluster) (member : id ∈ quorum) :
    (cluster.node id).clusterSize = cluster.members.length := by
  obtain ⟨past, book⟩ := known.membership
  exact book.size id (known.mem member)

theorem Underway.peers (known : Underway quorum cluster) (member : id ∈ quorum) {peer : Int} (other : peer ∈ quorum)
    (different : peer ≠ id) : peer ∈ (cluster.node id).peers := by
  obtain ⟨past, book⟩ := known.membership
  exact (book.peers id (known.mem member) peer).mpr ⟨known.mem other, different⟩

theorem delivers {packet : Packet} (inFlight : packet ∈ cluster.net) (inside : packet.target ∈ quorum) (fits : packet.Fits)
    (ack : CurrentAck cluster packet) (vote : CarefulVote cluster packet)
    (received : ∀ net, (cluster.withNet net).receive packet = some (((cluster.withNet net).set packet.target node).send packets)) :
    ∃ action later, QuorumStep quorum cluster action later ∧ Puts cluster later packet.target node packets ∧
      ∀ other ∈ cluster.net, other ≠ packet → other ∈ later.net := by
  obtain ⟨position, found⟩ := List.getElem?_of_mem inFlight
  have only : ∀ other ∈ cluster.net[position]?, other = packet := by
    intro other present
    exact Option.some.inj (present.symm.trans found)
  have step : Cluster.Step cluster (.deliver position)
      (((cluster.withNet (cluster.net.eraseIdx position)).set packet.target node).send packets) := by
    change Cluster.act _ _ = _
    rw [Cluster.act, found]
    exact received _
  refine ⟨.deliver position, _, ⟨step, ⟨fun other present => ?_, fun other present => ?_⟩, fun other present => ?_⟩,
    ⟨rfl, rfl, fun other sent => List.mem_append_right _ sent⟩, fun other waiting different => ?_⟩
  · rw [only other present]
    exact ack
  · rw [only other present]
    exact vote
  · rw [only other present]
    exact ⟨inside, fits⟩
  · obtain ⟨bound, rfl⟩ := List.getElem?_eq_some_iff.mp found
    have order : (cluster.net[position] :: cluster.net.eraseIdx position).Perm cluster.net := List.getElem_cons_eraseIdx_perm bound
    apply List.mem_append_left
    exact (List.mem_cons.mp (order.symm.subset waiting)).resolve_left different

theorem delivers_voteRequest {target : Int} {request : RpcMessage} (known : Underway quorum cluster)
    (inFlight : .voteRequest target request ∈ cluster.net) (inside : target ∈ quorum)
    (vote : CarefulVote cluster (.voteRequest target request)) :
    ∃ action later, QuorumStep quorum cluster action later ∧
      Puts cluster later target ((cluster.node target).handleRequestVote request.term request.senderId).1
        [.voteReply request.senderId request.term target
          ((cluster.node target).handleRequestVote request.term request.senderId).2] ∧
      ∀ other ∈ cluster.net, other ≠ .voteRequest target request → other ∈ later.net :=
  delivers inFlight inside trivial trivial vote fun _ => if_pos (known.mem inside)

theorem delivers_voteReply {target term peer : Int} {reply : RpcMessage} (known : Underway quorum cluster)
    (inFlight : .voteReply target term peer reply ∈ cluster.net) (inside : target ∈ quorum) :
    ∃ action later, QuorumStep quorum cluster action later ∧
      Puts cluster later target ((cluster.node target).handleVoteReply term peer reply) [] ∧
      ∀ other ∈ cluster.net, other ≠ .voteReply target term peer reply → other ∈ later.net := by
  refine delivers inFlight inside trivial trivial trivial fun net => ?_
  rw [Cluster.send, List.append_nil]
  exact if_pos (known.mem inside)

end Steps

namespace RaftNode

variable {node : RaftNode} {term : Int}

theorem handleRequestVote_later (earlier : node.currentTerm < term) (candidate : Int) :
    node.handleRequestVote term candidate =
      (node.voting term candidate, (node.voting term candidate).requestVoteReply true) := by
  simp [handleRequestVote, Int.le_of_lt earlier, earlier, seeCandidate, stepDown, grantVote, voting]

theorem handleVoteReply_counted (running : node.running = true) (campaigns : node.state = .candidate)
    (current : node.currentTerm = term) (peer : Int) {reply : RpcMessage} (typed : reply.type = .requestVoteReply)
    (level : reply.term = term) (granted : reply.payload = yes) :
    node.handleVoteReply term peer reply =
      if (node.addVote peer).hasMajority then (node.addVote peer).becomeLeader else node.addVote peer := by
  unfold handleVoteReply
  simp [running, campaigns, current, typed, level, granted]

theorem startElection_campaigns (running : node.running = true) (idle : node.state ≠ .leader)
    (room : node.currentTerm < int32Max) (several : 2 ≤ node.clusterSize) :
    ¬ node.becomeCandidate.hasMajority ∧
      node.startElection = some (node.becomeCandidate, node.becomeCandidate.voteRequests) := by
  have short : ¬ node.becomeCandidate.hasMajority := by
    change ¬ ({node.nodeId} : Finset Int).card > node.clusterSize / 2
    rw [Finset.card_singleton]
    omega
  refine ⟨short, ?_⟩
  unfold startElection
  rw [if_neg (by simp [running, idle]), if_neg (by omega), if_neg short]

end RaftNode

section Votes

variable {quorum : Finset Int} {cluster later : Cluster} {candidate term : Int} {log : List LogEntry} {voter : Int} {rest : List Int}

/-- A member that leads with this log, in a term that no member is past. -/
structure Elected (quorum : Finset Int) (leader : Int) (log : List LogEntry) (cluster : Cluster) : Prop
    extends Underway quorum cluster where
  member : leader ∈ quorum
  leads : (cluster.node leader).state = .leader
  log : (cluster.node leader).log = log
  level : ∀ id ∈ quorum, (cluster.node id).currentTerm ≤ (cluster.node leader).currentTerm

def voteRequest (candidate term voter : Int) : Packet :=
  .voteRequest voter ⟨.requestVote, term, candidate, []⟩

structure Asking (quorum : Finset Int) (candidate term : Int) (log : List LogEntry) (rest : List Int) (cluster : Cluster) : Prop
    extends Underway quorum cluster where
  member : candidate ∈ quorum
  log : (cluster.node candidate).log = log
  campaigns : (cluster.node candidate).state = .candidate
  current : (cluster.node candidate).currentTerm = term
  short : ¬ (cluster.node candidate).hasMajority
  level : ∀ id ∈ quorum, (cluster.node id).currentTerm ≤ term
  best : ∀ id ∈ quorum, UpToDate (cluster.node id).log (cluster.node candidate).log
  distinct : rest.Nodup
  listed : ∀ voter ∈ rest, voter ∈ quorum ∧ voter ≠ candidate
  behind : ∀ voter ∈ rest, (cluster.node voter).currentTerm < term
  asked : ∀ voter ∈ rest, voteRequest candidate term voter ∈ cluster.net
  counted : ∀ id ∈ quorum, id ∈ rest ∨ id ∈ (cluster.node candidate).votesReceived

theorem Asking.vote (asking : Asking quorum candidate term log (voter :: rest) cluster) :
    Attains (QuorumStep quorum) cluster fun later =>
      Elected quorum candidate log later ∨ Asking quorum candidate term log rest later := by
  have known := asking.toUnderway
  obtain ⟨inside, other⟩ := asking.listed voter List.mem_cons_self
  have earlier := asking.behind voter List.mem_cons_self
  obtain ⟨fresh, others⟩ := List.nodup_cons.mp asking.distinct
  -- the request is delivered
  obtain ⟨_, between, ask, voted, kept⟩ := delivers_voteRequest known (asking.asked voter List.mem_cons_self) inside
    (fun _ _ _ => asking.best voter inside)
  rw [RaftNode.handleRequestVote_later earlier] at voted
  have same : between.node candidate = cluster.node candidate := voted.other other.symm
  have still := known.after ask voted (known.running voter inside)
  have level := @Puts.all _ _ _ _ _ _ voted (fun _ node => node.currentTerm ≤ term) asking.level (le_refl term)
  -- the reply is delivered
  obtain ⟨_, later, count, counted, left⟩ := delivers_voteReply still (voted.sent _ List.mem_cons_self) asking.member
  rw [same, RaftNode.handleVoteReply_counted (known.running candidate asking.member) asking.campaigns asking.current voter
    rfl rfl rfl] at counted
  apply Attains.after ask
  apply Attains.after count
  apply Attains.here
  by_cases majority : ((cluster.node candidate).addVote voter).hasMajority
  · rw [if_pos majority] at counted
    refine .inl ⟨still.after count counted (known.running candidate asking.member), asking.member, ?_, ?_, ?_⟩
    · rw [counted.here]
      rfl
    · rw [counted.here]
      exact asking.log
    · rw [counted.here]
      exact @Puts.all _ _ _ _ _ _ counted (fun _ node => node.currentTerm ≤ (cluster.node candidate).currentTerm)
        (fun id member => (level id member).trans asking.current.ge) (le_refl _)
  · rw [if_neg majority] at counted
    have behind : ∀ id ∈ rest, id ≠ voter ∧ id ≠ candidate := by
      intro id member
      refine ⟨?_, (asking.listed id (List.mem_cons_of_mem _ member)).2⟩
      rintro rfl
      exact fresh member
    refine .inr ⟨still.after count counted (known.running candidate asking.member), asking.member, ?_, ?_, ?_, ?_, ?_, ?_, others,
      fun id member => asking.listed id (List.mem_cons_of_mem _ member), fun id member => ?_, fun id member => ?_,
      fun id member => ?_⟩
    · rw [counted.here]
      exact asking.log
    · rw [counted.here]
      exact asking.campaigns
    · rw [counted.here]
      exact asking.current
    · rw [counted.here]
      exact majority
    · exact @Puts.all _ _ _ _ _ _ counted (fun _ node => node.currentTerm ≤ term) level asking.current.le
    · rw [counted.here]
      have best := @Puts.all _ _ _ _ _ _ voted (fun _ node => UpToDate node.log (cluster.node candidate).log) asking.best
        (asking.best voter inside)
      exact @Puts.all _ _ _ _ _ _ counted (fun _ node => UpToDate node.log (cluster.node candidate).log) best
        (asking.best candidate asking.member)
    · obtain ⟨notVoter, notCandidate⟩ := behind id member
      rw [counted.other notCandidate, voted.other notVoter]
      exact asking.behind id (List.mem_cons_of_mem _ member)
    · obtain ⟨notVoter, notCandidate⟩ := behind id member
      apply left _ (kept _ (asking.asked id (List.mem_cons_of_mem _ member)) ?_) nofun
      intro alike
      exact notVoter (Packet.voteRequest.inj alike).1
    · rw [counted.here]
      change id ∈ rest ∨ id ∈ insert voter (cluster.node candidate).votesReceived
      rcases asking.counted id member with waiting | voted
      · rcases List.mem_cons.mp waiting with rfl | waits
        · exact .inr (Finset.mem_insert_self _ _)
        · exact .inl waits
      · exact .inr (Finset.mem_insert_of_mem voted)

theorem Asking.wins (asking : Asking quorum candidate term log rest cluster) :
    Attains (QuorumStep quorum) cluster (Elected quorum candidate log) := by
  apply @Attains.forEach _ _ _ _ _ _ (Asking quorum candidate term log) (fun _ _ _ waiting => waiting.vote) _ rest asking
  intro last counted
  exfalso
  have votes : quorum ⊆ (last.node candidate).votesReceived := by
    intro id member
    exact (counted.counted id member).resolve_left List.not_mem_nil
  have fewer := Finset.card_le_card votes
  have most := counted.majority.2
  apply counted.short
  unfold RaftNode.hasMajority
  rw [counted.size counted.member]
  omega

end Votes

section Campaigns

variable {quorum : Finset Int} {cluster : Cluster} {id : Int}

structure Campaigns (before : RaftNode) (id term : Int) (node : RaftNode) (packets : List Packet) : Prop where
  state : node.state = .candidate
  current : node.currentTerm = term
  votes : node.votesReceived = {id}
  short : ¬ node.hasMajority
  log : node.log = before.log
  peers : node.peers = before.peers
  running : node.running = true
  asked : ∀ peer ∈ before.peers, voteRequest id term peer ∈ packets

theorem campaign (known : Underway quorum cluster) (member : id ∈ quorum) (idle : (cluster.node id).state ≠ .leader)
    (room : (cluster.node id).currentTerm < int32Max) :
    ∃ later node packets, QuorumStep quorum cluster (.startElection id) later ∧ Puts cluster later id node packets ∧
      Campaigns (cluster.node id) id ((cluster.node id).currentTerm + 1) node packets := by
  have several := known.several
  rw [← known.size member] at several
  obtain ⟨short, opens⟩ := RaftNode.startElection_campaigns (known.running id member) idle room several
  have named := known.identity member
  refine ⟨(cluster.set id (cluster.node id).becomeCandidate).send ((cluster.node id).becomeCandidate.voteRequests.map
      fun request => .voteRequest request.1 request.2), _, _, ⟨?_, ⟨nofun, nofun⟩, member⟩,
    ⟨rfl, rfl, fun packet sent => List.mem_append_right _ sent⟩, ⟨rfl, rfl, congrArg singleton named, short, rfl, rfl, known.running id member, fun peer listed => ?_⟩⟩
  · change Cluster.act _ _ = _
    simp only [Cluster.act, known.mem member, ↓reduceIte, opens, Option.bind_eq_bind, Option.bind_some]
  · rw [RaftNode.voteRequests, List.map_map]
    apply List.mem_map.mpr
    refine ⟨peer, listed, ?_⟩
    simp only [Function.comp_apply, voteRequest, RaftNode.becomeCandidate, named]

theorem campaigns (known : Underway quorum cluster) (member : id ∈ quorum) (idle : (cluster.node id).state ≠ .leader)
    (count : Nat) (room : (cluster.node id).currentTerm + count < int32Max) :
    Attains (QuorumStep quorum) cluster fun later => Underway quorum later ∧ ∃ node packets,
      Puts cluster later id node packets ∧
      Campaigns (cluster.node id) id ((cluster.node id).currentTerm + count + 1) node packets := by
  induction count with
  | zero =>
    rw [Int.natCast_zero, Int.add_zero] at room ⊢
    obtain ⟨later, node, packets, opens, puts, campaigns⟩ := campaign known member idle room
    exact (Attains.here ⟨known.after opens puts campaigns.running, node, packets, puts, campaigns⟩).after opens
  | succ count ih =>
    push_cast at room
    apply (ih (by omega)).trans
    rintro between ⟨underway, early, sent, put, opened⟩
    have same := put.here
    have candidate : (between.node id).state ≠ .leader := by
      rw [same, opened.state]
      decide
    obtain ⟨later, node, packets, opens, puts, again⟩ := campaign underway member candidate (by
      rw [same, opened.current]
      omega)
    refine (Attains.here ⟨underway.after opens puts again.running, node, packets, put.again puts, ?_⟩).after opens
    rw [same, opened.current] at again
    push_cast
    refine ⟨again.state, ?_, again.votes, again.short, again.log.trans opened.log, again.peers.trans opened.peers,
      again.running, ?_⟩
    · rw [again.current]
      omega
    · rw [← Int.add_assoc, ← opened.peers]
      exact again.asked

/-- A member that does not lead, with the most recent log. No member is past the term. -/
structure Ready (quorum : Finset Int) (candidate term : Int) (log : List LogEntry) (cluster : Cluster) : Prop
    extends Underway quorum cluster where
  member : candidate ∈ quorum
  log : (cluster.node candidate).log = log
  idle : (cluster.node candidate).state ≠ .leader
  level : ∀ id ∈ quorum, (cluster.node id).currentTerm ≤ term
  best : ∀ id ∈ quorum, UpToDate (cluster.node id).log (cluster.node candidate).log

theorem Ready.wins {candidate term : Int} {log : List LogEntry} (ready : Ready quorum candidate term log cluster)
    (room : term < int32Max) : Attains (QuorumStep quorum) cluster (Elected quorum candidate log) := by
  have low := ready.level candidate ready.member
  apply (campaigns ready.toUnderway ready.member ready.idle (term - (cluster.node candidate).currentTerm).toNat (by omega)).trans
  rintro later ⟨known, node, packets, puts, opened⟩
  have next : (cluster.node candidate).currentTerm + (term - (cluster.node candidate).currentTerm).toNat + 1 = term + 1 := by omega
  rw [next] at opened
  have others : ∀ id ∈ (quorum.erase candidate).toList, id ∈ quorum ∧ id ≠ candidate := by
    intro id listed
    rw [Finset.mem_toList, Finset.mem_erase] at listed
    exact listed.symm
  apply @Asking.wins quorum later candidate (term + 1) log (quorum.erase candidate).toList
  refine ⟨known, ready.member, ?_, ?_, ?_, ?_, ?_, ?_, Finset.nodup_toList _, others, fun id listed => ?_, fun id listed => ?_,
    fun id member => ?_⟩
  · rw [puts.here]
    exact opened.log.trans ready.log
  · rw [puts.here]
    exact opened.state
  · rw [puts.here]
    exact opened.current
  · rw [puts.here]
    exact opened.short
  · apply @Puts.all _ _ _ _ _ _ puts (fun _ node => node.currentTerm ≤ term + 1) _ opened.current.le
    intro id member
    have below := ready.level id member
    omega
  · rw [puts.here, opened.log]
    apply @Puts.all _ _ _ _ _ _ puts (fun _ node => UpToDate node.log (cluster.node candidate).log) ready.best
    rw [opened.log]
    exact ready.best candidate ready.member
  · obtain ⟨member, different⟩ := others id listed
    rw [puts.other different]
    have below := ready.level id member
    omega
  · obtain ⟨member, different⟩ := others id listed
    exact puts.sent _ (opened.asked id (ready.toUnderway.peers ready.member member different))
  · rw [puts.here, opened.votes, Finset.mem_toList, Finset.mem_erase, Finset.mem_singleton]
    by_cases same : id = candidate
    · exact .inr same
    · exact .inl ⟨same, member⟩

end Campaigns

namespace RaftNode

variable {node later : RaftNode}

theorem handleAppendEntries_running {term leader : Int} {args : AppendEntriesArgs} {reply : RpcMessage}
    (ran : node.handleAppendEntries term leader args = some (later, reply)) : later.running = node.running := by
  rcases handleAppendEntries_cases ran with ⟨-, rfl, -⟩ | ⟨fresh, rfl, -⟩ | ⟨fresh, -, -, accepted⟩
  · rfl
  · rw [seeLeader_eq _ fresh]
  · obtain ⟨commitIndex, lastApplied, commits, rfl⟩ := acceptEntries_frame accepted
    rw [seeLeader_eq _ fresh]
    rfl

theorem handleAppendEntriesReply_running {peer sent : Int} {reply : RpcMessage}
    (ran : node.handleAppendEntriesReply peer reply sent = some later) : later.running = node.running := by
  rcases handleAppendEntriesReply_cases ran with rfl | ⟨-, rfl⟩ | ⟨-, -, rfl | ⟨-, -, -, advanced⟩⟩
  · rfl
  · rfl
  · rfl
  · obtain ⟨commitIndex, lastApplied, commits, rfl⟩ := commitScan_frame advanced
    rfl

theorem sendHeartbeats_requests (running : node.running = true) (leads : node.state = .leader)
    (inside : ∀ peer ∈ node.peers, 1 ≤ node.nextIndex peer ∧ node.nextIndex peer ≤ node.log.length) :
    ∃ requests, node.sendHeartbeats = some requests ∧
      ∀ peer ∈ node.peers, ∀ args, node.heartbeatFor peer = some (peer, args) → (peer, args) ∈ requests := by
  have built : ∀ peers : List Int, (∀ peer ∈ peers, peer ∈ node.peers) → ∃ requests, peers.mapM node.heartbeatFor = some requests ∧
      ∀ peer ∈ peers, ∀ args, node.heartbeatFor peer = some (peer, args) → (peer, args) ∈ requests := by
    intro peers
    induction peers with
    | nil => exact fun _ => ⟨[], rfl, nofun⟩
    | cons first rest ih =>
      intro listed
      obtain ⟨low, high⟩ := inside first (listed first List.mem_cons_self)
      obtain ⟨args, request, -⟩ := heartbeatFor_spec low high
      obtain ⟨requests, done, known⟩ := ih fun peer member => listed peer (List.mem_cons_of_mem _ member)
      refine ⟨(first, args) :: requests, ?_, fun peer member other found => ?_⟩
      · rw [List.mapM_cons, request, done]
        rfl
      · rcases List.mem_cons.mp member with rfl | later
        · obtain rfl := (Prod.mk.inj (Option.some.inj (found.symm.trans request))).2
          exact List.mem_cons_self
        · exact List.mem_cons_of_mem _ (known peer later other found)
  obtain ⟨requests, done, known⟩ := built node.peers fun _ listed => listed
  refine ⟨requests, ?_, known⟩
  unfold sendHeartbeats
  rw [if_neg (by simp [running, leads]), done]

end RaftNode

section Exchanges

variable {quorum : Finset Int} {cluster : Cluster} {leader peer : Int} {args : AppendEntriesArgs} {reply : RpcMessage}
variable {answered informed : RaftNode}

theorem Underway.inside (known : Underway quorum cluster) : IndexesInside cluster := by
  obtain ⟨past, run⟩ := known.reached
  refine @Run.invariant _ _ Cluster.Initial (Cluster.StepWhen CurrentReplies) (fun _ state => IndexesInside state) ?_
    (fun _ _ _ _ before inside step => indexesInside_step before step inside) _ _ run.currently
  intro fresh initial id member leads
  obtain ⟨peers, onCommit, shape, -⟩ := initial.2.2.2 id member
  rw [shape] at leads
  cases leads

theorem delivers_appendRequest {target term : Int} (known : Underway quorum cluster)
    (inFlight : .appendRequest target term leader args ∈ cluster.net) (inside : target ∈ quorum)
    (fits : 41 + entriesSize args.entries ≤ Rpc.maxMessageSize)
    (ran : (cluster.node target).handleAppendEntries term leader args = some (answered, reply)) :
    ∃ action later, QuorumStep quorum cluster action later ∧
      Puts cluster later target answered [.appendReply leader target (args.prevLogIndex + args.entries.length) reply] := by
  obtain ⟨action, later, step, puts, -⟩ := @delivers quorum cluster answered _ _ inFlight inside fits trivial trivial fun net => by
    simp only [Cluster.receive, Cluster.withNet_members, Cluster.withNet_node, known.mem inside, ↓reduceIte, ran,
      Option.bind_eq_bind, Option.bind_some]
    rfl
  exact ⟨action, later, step, puts⟩

theorem delivers_appendReply {target sent : Int} (known : Underway quorum cluster)
    (inFlight : .appendReply target peer sent reply ∈ cluster.net) (inside : target ∈ quorum)
    (ack : CurrentAck cluster (.appendReply target peer sent reply))
    (ran : (cluster.node target).handleAppendEntriesReply peer reply sent = some informed) :
    ∃ action later, QuorumStep quorum cluster action later ∧ Puts cluster later target informed [] := by
  obtain ⟨action, later, step, puts, -⟩ := @delivers quorum cluster informed [] _ inFlight inside trivial ack trivial fun net => by
    rw [Cluster.send, List.append_nil]
    simp only [Cluster.receive, Cluster.withNet_members, Cluster.withNet_node, known.mem inside, ↓reduceIte, ran,
      Option.bind_eq_bind, Option.bind_some]
    rfl
  exact ⟨action, later, step, puts⟩

theorem exchange (known : Underway quorum cluster) (member : leader ∈ quorum) (other : peer ∈ quorum) (different : peer ≠ leader)
    (leads : (cluster.node leader).state = .leader) (fits : 41 + entriesSize (cluster.node leader).log ≤ Rpc.maxMessageSize)
    (request : (cluster.node leader).heartbeatFor peer = some (peer, args))
    (ran : (cluster.node peer).handleAppendEntries (cluster.node leader).currentTerm (cluster.node leader).nodeId args =
      some (answered, reply))
    (replied : (cluster.node leader).handleAppendEntriesReply peer reply (args.prevLogIndex + args.entries.length) = some informed)
    (current : reply.payload = yes → (cluster.node leader).currentTerm ≤ reply.term) :
    Attains (QuorumStep quorum) cluster fun later => Underway quorum later ∧ later.members = cluster.members ∧
      later.node = Function.update (Function.update cluster.node peer answered) leader informed := by
  have named := known.identity member
  have listed := known.peers member other different
  have indexes := known.inside leader (known.mem member) leads
  -- the leader sends
  obtain ⟨requests, built, sent⟩ := RaftNode.sendHeartbeats_requests (known.running leader member) leads
    fun peer listed => ⟨(indexes peer listed).1, (indexes peer listed).2.1⟩
  have beat : QuorumStep quorum cluster (.sendHeartbeats leader) (cluster.send (Cluster.heartbeatPackets (cluster.node leader) requests)) := by
    refine ⟨?_, ⟨nofun, nofun⟩, member⟩
    change Cluster.act _ _ = _
    simp only [Cluster.act, known.mem member, ↓reduceIte, built, Option.bind_eq_bind, Option.bind_some]
  have inFlight : Packet.appendRequest peer (cluster.node leader).currentTerm (cluster.node leader).nodeId args ∈
      (cluster.send (Cluster.heartbeatPackets (cluster.node leader) requests)).net :=
    List.mem_append_right _ (List.mem_map.mpr ⟨_, sent peer listed args request, rfl⟩)
  have first : Underway quorum (cluster.send (Cluster.heartbeatPackets (cluster.node leader) requests)) := by
    apply @Underway.after _ _ _ _ leader (cluster.node leader) [] known beat _ (known.running leader member)
    exact ⟨rfl, (Function.update_eq_self ..).symm, nofun⟩
  -- the peer answers
  have small : 41 + entriesSize args.entries ≤ Rpc.maxMessageSize := by
    obtain ⟨-, front, prev, same, -⟩ := heartbeatFor_served request
    rw [← same, ← List.singleton_append, ← List.append_assoc, entriesSize_append] at fits
    omega
  obtain ⟨_, between, ask, asked⟩ := delivers_appendRequest first inFlight other small ran
  have second := first.after ask asked ((RaftNode.handleAppendEntries_running ran).trans (known.running peer other))
  have back := asked.sent _ List.mem_cons_self
  rw [named] at back
  have same : between.node leader = cluster.node leader := asked.other different.symm
  rw [← same] at replied leads current
  -- the leader takes the answer
  obtain ⟨_, later, take, taken⟩ := delivers_appendReply second back member (fun _ _ _ granted => current granted) replied
  have third := second.after take taken ((RaftNode.handleAppendEntriesReply_running replied).trans (second.running leader member))
  refine (((Attains.here ⟨third, taken.members.trans asked.members, ?_⟩).after take).after ask).after beat
  rw [taken.node, asked.node]
  rfl

theorem resigns (known : Underway quorum cluster) (member : leader ∈ quorum) (other : peer ∈ quorum)
    (leads : (cluster.node leader).state = .leader) (fits : 41 + entriesSize (cluster.node leader).log ≤ Rpc.maxMessageSize)
    (later : (cluster.node leader).currentTerm < (cluster.node peer).currentTerm) :
    Attains (QuorumStep quorum) cluster fun after => Underway quorum after ∧
      Puts cluster after leader ((cluster.node leader).stepDown (cluster.node peer).currentTerm) [] := by
  have different : peer ≠ leader := by
    rintro rfl
    exact lt_irrefl _ later
  obtain ⟨low, high, -⟩ := known.inside leader (known.mem member) leads peer (known.peers member other different)
  obtain ⟨args, request, -⟩ := RaftNode.heartbeatFor_spec low high
  have ran : (cluster.node peer).handleAppendEntries (cluster.node leader).currentTerm (cluster.node leader).nodeId args =
      some (cluster.node peer, (cluster.node peer).appendEntriesReply false) := if_neg (Int.not_le.mpr later)
  have replied : (cluster.node leader).handleAppendEntriesReply peer ((cluster.node peer).appendEntriesReply false)
      (args.prevLogIndex + args.entries.length) = some ((cluster.node leader).stepDown (cluster.node peer).currentTerm) := by
    unfold RaftNode.handleAppendEntriesReply
    rw [if_neg (by simp [known.running leader member, leads])]
    exact if_pos later
  have refused : ((cluster.node peer).appendEntriesReply false).payload ≠ yes := by
    change no ≠ yes
    decide
  apply (exchange known member other different leads fits request ran replied fun granted => absurd granted refused).trans
  rintro after ⟨underway, members, shape⟩
  rw [Function.update_eq_self] at shape
  exact Attains.here ⟨underway, members, shape, nofun⟩

theorem elects (known : Underway quorum cluster) (room : ∀ id ∈ quorum, (cluster.node id).currentTerm < int32Max)
    (fits : ∀ id ∈ quorum, 41 + entriesSize (cluster.node id).log ≤ Rpc.maxMessageSize) :
    Attains (QuorumStep quorum) cluster fun later => ∃ leader, Elected quorum leader (cluster.node leader).log later := by
  have some : quorum.Nonempty := by
    rw [← Finset.card_pos]
    have most := known.majority.2
    omega
  obtain ⟨last, lastMember, latest⟩ := quorum.exists_max_image (fun id => (cluster.node id).currentTerm) some
  obtain ⟨best, member, most⟩ := quorum.exists_max_image
    (fun id => toLex (lastTerm (cluster.node id).log, (cluster.node id).log.length)) some
  have recent : ∀ id ∈ quorum, UpToDate (cluster.node id).log (cluster.node best).log := by
    intro id listed
    exact Prod.Lex.toLex_le_toLex.mp (most id listed)
  have elected : ∀ state : Cluster, Ready quorum best (cluster.node last).currentTerm (cluster.node best).log state →
      Attains (QuorumStep quorum) state fun later => ∃ leader, Elected quorum leader (cluster.node leader).log later := by
    intro state ready
    apply (ready.wins (room last lastMember)).trans
    exact fun later done => Attains.here ⟨best, done⟩
  by_cases leads : (cluster.node best).state = .leader
  · by_cases level : (cluster.node last).currentTerm ≤ (cluster.node best).currentTerm
    · exact Attains.here ⟨best, known, member, leads, rfl, fun id listed => (latest id listed).trans level⟩
    · apply (resigns known member lastMember leads (fits best member) (by omega)).trans
      rintro after ⟨underway, puts⟩
      apply elected after
      refine ⟨underway, member, ?_, ?_, ?_, ?_⟩
      · rw [puts.here]
        rfl
      · rw [puts.here]
        change RaftState.follower ≠ .leader
        decide
      · exact @Puts.all _ _ _ _ _ _ puts (fun _ node => node.currentTerm ≤ (cluster.node last).currentTerm) latest (le_refl _)
      · rw [puts.here]
        exact @Puts.all _ _ _ _ _ _ puts (fun _ node => UpToDate node.log (cluster.node best).log) recent (recent best member)
  · exact elected cluster ⟨known, member, rfl, leads, latest, recent⟩

end Exchanges

end QuorumDB.Raft
