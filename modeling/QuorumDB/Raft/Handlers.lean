import QuorumDB.Raft.Cluster

/-!
What each handler can do to a node, and what one step can do to a cluster. The
invariants are proved from these case lists, not from the handlers' bodies.
-/

namespace QuorumDB.Raft
namespace RaftNode

def voting (node : RaftNode) (term candidate : Int) : RaftNode :=
  { node with currentTerm := term, votedFor := candidate, state := .follower, leaderId := -1 }

theorem handleRequestVote_cases (node : RaftNode) (term candidate : Int) :
    (node.handleRequestVote term candidate = (node, node.requestVoteReply false)) ∨
    (node.currentTerm ≤ term ∧
      (node.currentTerm < term ∨ node.votedFor = -1 ∨ node.votedFor = candidate) ∧
      node.handleRequestVote term candidate =
        (node.voting term candidate, (node.voting term candidate).requestVoteReply true)) := by
  by_cases stale : term ≥ node.currentTerm
  · by_cases later : term > node.currentTerm
    · right
      refine ⟨by omega, .inl later, ?_⟩
      simp [handleRequestVote, stale, later, seeCandidate, stepDown, grantVote, voting]
    · have same : term = node.currentTerm := by omega
      subst same
      by_cases free : node.votedFor = -1 ∨ node.votedFor = candidate
      · right
        refine ⟨le_refl _, .inr free, ?_⟩
        simp [handleRequestVote, seeCandidate, free, grantVote, voting]
      · left
        simp [handleRequestVote, seeCandidate, free]
  · left
    simp [handleRequestVote, stale]

theorem startElection_cases {node later : RaftNode} {requests : List (Int × RpcMessage)}
    (ran : node.startElection = some (later, requests)) :
    (later = node ∧ requests = []) ∨
    (node.running = true ∧ node.state ≠ .leader ∧ node.currentTerm < int32Max ∧
      ((node.becomeCandidate.hasMajority ∧ later = node.becomeCandidate.becomeLeader ∧
          requests = []) ∨
        (later = node.becomeCandidate ∧ requests = node.becomeCandidate.voteRequests))) := by
  unfold startElection at ran
  split_ifs at ran with idle full majority <;>
    simp only [Option.some.injEq, Prod.mk.injEq] at ran <;>
    obtain ⟨rfl, rfl⟩ := ran
  · exact .inl ⟨rfl, rfl⟩
  · simp only [not_or, Bool.not_eq_false] at idle
    exact .inr ⟨idle.1, idle.2, by omega, .inl ⟨majority, rfl, rfl⟩⟩
  · simp only [not_or, Bool.not_eq_false] at idle
    exact .inr ⟨idle.1, idle.2, by omega, .inr ⟨rfl, rfl⟩⟩

theorem handleVoteReply_cases (node : RaftNode) (electionTerm peer : Int) (reply : RpcMessage) :
    node.handleVoteReply electionTerm peer reply = node ∨
    (node.currentTerm < reply.term ∧
      node.handleVoteReply electionTerm peer reply = node.stepDown reply.term) ∨
    (node.state = .candidate ∧ node.currentTerm = electionTerm ∧ reply.term = electionTerm ∧
      reply.payload = yes ∧
      (((node.addVote peer).hasMajority ∧
          node.handleVoteReply electionTerm peer reply = (node.addVote peer).becomeLeader) ∨
        node.handleVoteReply electionTerm peer reply = node.addVote peer)) := by
  unfold handleVoteReply
  split_ifs with idle later other majority
  · exact .inl rfl
  · exact .inr (.inl ⟨later, rfl⟩)
  · exact .inl rfl
  · simp only [not_or, Decidable.not_not] at other
    exact .inr (.inr ⟨other.1, other.2.1, other.2.2.2.1, other.2.2.2.2, .inl ⟨majority, rfl⟩⟩)
  · simp only [not_or, Decidable.not_not] at other
    exact .inr (.inr ⟨other.1, other.2.1, other.2.2.2.1, other.2.2.2.2, .inr rfl⟩)

def withApplied (node : RaftNode) (lastApplied : Int) (commits : List (Bytes × Int)) : RaftNode :=
  { node with lastApplied := lastApplied, commits := commits }

def CallsFrom (node : RaftNode) (limit : Int) (commits : List (Bytes × Int)) : Prop :=
  ∀ call ∈ commits, call ∈ node.commits ∨
    node.lastApplied < call.2 ∧ call.2 ≤ limit ∧
      ∃ entry, node.logAt call.2 = some entry ∧ entry.command = call.1

theorem applyRounds_cases {rounds : Nat} {node later : RaftNode}
    (ran : applyRounds rounds node = some later) :
    ∃ commits, later = node.withApplied (node.lastApplied + rounds) commits ∧
      node.CallsFrom (node.lastApplied + rounds) commits := by
  induction rounds generalizing node with
  | zero =>
    simp only [applyRounds, Option.some.injEq] at ran
    subst ran
    exact ⟨node.commits, by simp [withApplied], fun call member => .inl member⟩
  | succ rounds ih =>
    have shift : node.lastApplied + 1 + (rounds : Int) = node.lastApplied + ((rounds + 1 : Nat) : Int) := by
      push_cast
      omega
    unfold applyRounds at ran
    split_ifs at ran with called
    · split at ran
      · cases ran
      next entry found =>
        obtain ⟨commits, same, calls⟩ := ih ran
        refine ⟨commits, by rw [same, ← shift]; rfl, fun call member => ?_⟩
        rcases calls call member with old | ⟨above, below, located⟩
        · rcases List.mem_append.mp old with before | now
          · exact .inl before
          · rw [List.mem_singleton] at now
            subst now
            exact .inr ⟨Int.lt_succ _, by rw [← shift]; exact Int.le_add_of_nonneg_right (Int.natCast_nonneg _), entry, found, rfl⟩
        · exact .inr ⟨(Int.lt_succ _).trans above, shift ▸ below, located⟩
    · obtain ⟨commits, same, calls⟩ := ih ran
      refine ⟨commits, by rw [same, ← shift]; rfl, fun call member => ?_⟩
      rcases calls call member with old | ⟨above, below, located⟩
      · exact .inl old
      · exact .inr ⟨(Int.lt_succ _).trans above, shift ▸ below, located⟩

theorem applyCommittedEntriesLocked_cases {node later : RaftNode}
    (ran : node.applyCommittedEntriesLocked = some later) :
    ∃ lastApplied commits, later = node.withApplied lastApplied commits ∧
      node.CallsFrom node.commitIndex commits := by
  obtain ⟨commits, same, calls⟩ := applyRounds_cases ran
  refine ⟨_, commits, same, fun call member => ?_⟩
  rcases calls call member with old | ⟨above, below, located⟩
  · exact .inl old
  · exact .inr ⟨above, by omega, located⟩

theorem seeLeader_eq {node : RaftNode} {term : Int} (leader : Int) (fresh : node.currentTerm ≤ term) :
    node.seeLeader term leader = { node with
      currentTerm := term
      votedFor := if term > node.currentTerm then -1 else node.votedFor
      state := .follower
      leaderId := leader } := by
  by_cases above : term > node.currentTerm
  · simp [seeLeader, above]
  · have level : node.currentTerm = term := by omega
    simp [seeLeader, level]

theorem acceptEntries_cases {node later : RaftNode} {args : AppendEntriesArgs}
    (ran : node.acceptEntries args = some later) :
    later = node.repairLog args ∨
    ∃ lastApplied commits,
      node.commitIndex < args.leaderCommit ∧
      later = ((node.repairLog args).setCommitIndex
        (min args.leaderCommit (args.prevLogIndex + args.entries.length))).withApplied
          lastApplied commits ∧
      (node.repairLog args).CallsFrom
        (min args.leaderCommit (args.prevLogIndex + args.entries.length)) commits := by
  unfold acceptEntries at ran
  split_ifs at ran with fresh
  · obtain ⟨lastApplied, commits, same, calls⟩ := applyCommittedEntriesLocked_cases ran
    exact .inr ⟨lastApplied, commits, fresh, same, calls⟩
  · exact .inl (Option.some.inj ran).symm

theorem acceptEntries_frame {node later : RaftNode} {args : AppendEntriesArgs}
    (ran : node.acceptEntries args = some later) :
    ∃ commitIndex lastApplied commits, later = { node.repairLog args with
      commitIndex := commitIndex
      lastApplied := lastApplied
      commits := commits } := by
  rcases acceptEntries_cases ran with rfl | ⟨lastApplied, commits, -, rfl, -⟩
  · exact ⟨_, _, _, rfl⟩
  · exact ⟨_, _, _, rfl⟩

theorem handleAppendEntries_cases {node later : RaftNode} {term leader : Int}
    {args : AppendEntriesArgs} {reply : RpcMessage}
    (ran : node.handleAppendEntries term leader args = some (later, reply)) :
    (term < node.currentTerm ∧ later = node ∧ reply = node.appendEntriesReply false) ∨
    (node.currentTerm ≤ term ∧ later = node.seeLeader term leader ∧
      reply = later.appendEntriesReply false) ∨
    (node.currentTerm ≤ term ∧ reply = later.appendEntriesReply true ∧
      (∃ prev, node.logAt args.prevLogIndex = some prev ∧ prev.term = args.prevLogTerm) ∧
      (node.seeLeader term leader).acceptEntries args = some later) := by
  unfold handleAppendEntries at ran
  split_ifs at ran with fresh inside
  · split at ran
    · cases ran
    next prev found =>
      split_ifs at ran with matching
      · split at ran
        · cases ran
        next accepted accepts =>
          simp only [Option.some.injEq, Prod.mk.injEq] at ran
          obtain ⟨rfl, rfl⟩ := ran
          exact .inr (.inr ⟨fresh, rfl, ⟨prev, found, matching⟩, accepts⟩)
      · simp only [Option.some.injEq, Prod.mk.injEq] at ran
        obtain ⟨rfl, rfl⟩ := ran
        exact .inr (.inl ⟨fresh, rfl, rfl⟩)
  · simp only [Option.some.injEq, Prod.mk.injEq] at ran
    obtain ⟨rfl, rfl⟩ := ran
    exact .inr (.inl ⟨fresh, rfl, rfl⟩)
  · simp only [Option.some.injEq, Prod.mk.injEq] at ran
    obtain ⟨rfl, rfl⟩ := ran
    exact .inl ⟨by omega, rfl, rfl⟩

theorem commitScan_cases {node later : RaftNode} {rounds : Nat}
    (ran : node.commitScan rounds = some later) :
    later = node ∨
    ∃ (n : Nat) (entry : LogEntry) (lastApplied : Int) (commits : List (Bytes × Int)),
      node.commitIndex < n ∧ node.logAt n = some entry ∧ entry.term = node.currentTerm ∧
      node.clusterSize / 2 < node.matchCount n ∧
      later = (node.setCommitIndex n).withApplied lastApplied commits ∧ node.CallsFrom n commits := by
  induction rounds with
  | zero =>
    unfold commitScan at ran
    split_ifs at ran
    exact .inl (Option.some.inj ran).symm
  | succ n ih =>
    unfold commitScan at ran
    split_ifs at ran with above
    · split at ran
      · cases ran
      next entry found =>
        split_ifs at ran with enough
        · obtain ⟨lastApplied, commits, same, calls⟩ := applyCommittedEntriesLocked_cases ran
          exact .inr ⟨n, entry, lastApplied, commits, above, found, enough.1, enough.2, same, calls⟩
        · exact ih ran
    · exact .inl (Option.some.inj ran).symm

theorem commitScan_frame {node later : RaftNode} {rounds : Nat} (ran : node.commitScan rounds = some later) :
    ∃ commitIndex lastApplied commits, later = { node with
      commitIndex := commitIndex
      lastApplied := lastApplied
      commits := commits } := by
  rcases commitScan_cases ran with rfl | ⟨n, entry, lastApplied, commits, -, -, -, -, rfl, -⟩
  · exact ⟨_, _, _, rfl⟩
  · exact ⟨_, _, _, rfl⟩

/-- An acknowledgement changes the indexes of its peer. The fields are named so that no proof has to
compare the two nodes, their functions with them. -/
theorem acknowledge_fields (node : RaftNode) (peer sent : Int) :
    (node.acknowledge peer sent).log = node.log ∧
    (node.acknowledge peer sent).currentTerm = node.currentTerm ∧
    (node.acknowledge peer sent).nodeId = node.nodeId ∧
    (node.acknowledge peer sent).state = node.state ∧
    (node.acknowledge peer sent).commitIndex = node.commitIndex ∧
    (node.acknowledge peer sent).commits = node.commits := by
  simp only [acknowledge, setNextIndex, setMatchIndex, and_self]

theorem handleAppendEntriesReply_cases {node later : RaftNode} {peer sent : Int} {reply : RpcMessage}
    (ran : node.handleAppendEntriesReply peer reply sent = some later) :
    later = node ∨
    (node.currentTerm < reply.term ∧ later = node.stepDown reply.term) ∨
    (node.state = .leader ∧ reply.term ≤ node.currentTerm ∧
      (later = node.setNextIndex peer (max 1 (node.nextIndex peer - 1)) ∨
        (node.running = true ∧ reply.type = .appendEntriesReply ∧ reply.payload = yes ∧
          (node.acknowledge peer sent).advanceCommitIndexLocked = some later))) := by
  unfold handleAppendEntriesReply at ran
  split_ifs at ran with idle above typed accepted
  · exact .inl (Option.some.inj ran).symm
  · exact .inr (.inl ⟨above, (Option.some.inj ran).symm⟩)
  · simp only [not_or, ne_eq, Decidable.not_not, Bool.not_eq_false] at idle
    exact .inr (.inr ⟨idle.2, by omega, .inr ⟨idle.1, typed, accepted, ran⟩⟩)
  · simp only [not_or, ne_eq, Decidable.not_not] at idle
    exact .inr (.inr ⟨idle.2, by omega, .inl (Option.some.inj ran).symm⟩)
  · exact .inl (Option.some.inj ran).symm

end RaftNode

namespace Cluster

def withNet (cluster : Cluster) (net : List Packet) : Cluster :=
  { cluster with net := net }

@[simp] theorem withNet_members (cluster : Cluster) (net : List Packet) :
    (cluster.withNet net).members = cluster.members := rfl

@[simp] theorem withNet_node (cluster : Cluster) (net : List Packet) :
    (cluster.withNet net).node = cluster.node := rfl

@[simp] theorem withNet_net (cluster : Cluster) (net : List Packet) :
    (cluster.withNet net).net = net := rfl

inductive Effect (cluster : Cluster) : Option Packet → Cluster → Prop where
  | quiet {net : List Packet} (kept : ∀ packet ∈ net, packet ∈ cluster.net) :
      Effect cluster none (cluster.withNet net)
  | start {id : Int} (member : id ∈ cluster.members) :
      Effect cluster none (cluster.set id (cluster.node id).start)
  | stop {id : Int} (member : id ∈ cluster.members) :
      Effect cluster none (cluster.set id (cluster.node id).stop)
  | propose {id : Int} {command : Bytes} (member : id ∈ cluster.members) :
      Effect cluster none (cluster.set id ((cluster.node id).propose command).1)
  | campaign {id : Int} {node : RaftNode} {requests : List (Int × RpcMessage)}
      (member : id ∈ cluster.members)
      (ran : (cluster.node id).startElection = some (node, requests)) :
      Effect cluster none ((cluster.set id node).send
        (requests.map fun request => .voteRequest request.1 request.2))
  | heartbeat {id : Int} {requests : List (Int × AppendEntriesArgs)}
      (member : id ∈ cluster.members) (ran : (cluster.node id).sendHeartbeats = some requests) :
      Effect cluster none (cluster.send (heartbeatPackets (cluster.node id) requests))
  | vote {target : Int} {request : RpcMessage} {net : List Packet} (member : target ∈ cluster.members)
      (inFlight : .voteRequest target request ∈ cluster.net)
      (kept : ∀ packet ∈ net, packet ∈ cluster.net) :
      Effect cluster (some (.voteRequest target request)) (((cluster.withNet net).set target
        ((cluster.node target).handleRequestVote request.term request.senderId).1).send
          [.voteReply request.senderId request.term target
            ((cluster.node target).handleRequestVote request.term request.senderId).2])
  | voteReply {target electionTerm peer : Int} {reply : RpcMessage} {net : List Packet}
      (member : target ∈ cluster.members)
      (inFlight : .voteReply target electionTerm peer reply ∈ cluster.net)
      (kept : ∀ packet ∈ net, packet ∈ cluster.net) :
      Effect cluster (some (.voteReply target electionTerm peer reply))
        ((cluster.withNet net).set target
          ((cluster.node target).handleVoteReply electionTerm peer reply))
  | append {target term leader : Int} {args : AppendEntriesArgs} {net : List Packet}
      {node : RaftNode} {reply : RpcMessage} (member : target ∈ cluster.members)
      (inFlight : .appendRequest target term leader args ∈ cluster.net)
      (kept : ∀ packet ∈ net, packet ∈ cluster.net)
      (ran : (cluster.node target).handleAppendEntries term leader args = some (node, reply)) :
      Effect cluster (some (.appendRequest target term leader args))
        (((cluster.withNet net).set target node).send
          [.appendReply leader target (args.prevLogIndex + args.entries.length) reply])
  | appendReply {target peer sent : Int} {reply : RpcMessage} {net : List Packet} {node : RaftNode}
      (member : target ∈ cluster.members) (inFlight : .appendReply target peer sent reply ∈ cluster.net)
      (kept : ∀ packet ∈ net, packet ∈ cluster.net)
      (ran : (cluster.node target).handleAppendEntriesReply peer reply sent = some node) :
      Effect cluster (some (.appendReply target peer sent reply))
        ((cluster.withNet net).set target node)

def delivered (cluster : Cluster) : Action → Option Packet
  | .deliver position => cluster.net[position]?
  | _ => none

theorem guarded {α : Type} {condition : Prop} [Decidable condition] {value : Option α} {result : α}
    (ran : (if condition then value else none) = some result) : condition ∧ value = some result := by
  by_cases holds : condition
  · rw [if_pos holds] at ran
    exact ⟨holds, ran⟩
  · rw [if_neg holds] at ran
    cases ran

theorem mem_of_mapM {α β : Type} {build : α → Option β} {inputs : List α} {outputs : List β}
    (ran : inputs.mapM build = some outputs) {output : β} (member : output ∈ outputs) :
    ∃ input ∈ inputs, build input = some output := by
  induction inputs generalizing outputs with
  | nil =>
    cases Option.some.inj ran
    simp at member
  | cons input rest ih =>
    rw [List.mapM_cons] at ran
    obtain ⟨first, built, ran⟩ := Option.bind_eq_some_iff.mp ran
    obtain ⟨others, rest_ran, shape⟩ := Option.bind_eq_some_iff.mp ran
    cases Option.some.inj shape
    rcases List.mem_cons.mp member with rfl | later
    · exact ⟨input, List.mem_cons_self, built⟩
    · obtain ⟨source, known, made⟩ := ih rest_ran later
      exact ⟨source, List.mem_cons_of_mem _ known, made⟩

theorem receive_effect {cluster later : Cluster} {packet : Packet} {net : List Packet}
    (inFlight : packet ∈ cluster.net) (kept : ∀ other ∈ net, other ∈ cluster.net)
    (received : (cluster.withNet net).receive packet = some later) :
    Effect cluster (some packet) later := by
  cases packet with
  | voteRequest target request =>
    obtain ⟨member, shape⟩ := guarded received
    cases Option.some.inj shape
    exact .vote member inFlight kept
  | voteReply target electionTerm peer reply =>
    obtain ⟨member, shape⟩ := guarded received
    cases Option.some.inj shape
    exact .voteReply member inFlight kept
  | appendRequest target term leader args =>
    obtain ⟨member, shape⟩ := guarded received
    obtain ⟨⟨node, reply⟩, ran, same⟩ := Option.bind_eq_some_iff.mp shape
    cases Option.some.inj same
    exact .append member inFlight kept ran
  | appendReply target peer sent reply =>
    obtain ⟨member, shape⟩ := guarded received
    obtain ⟨node, ran, same⟩ := Option.bind_eq_some_iff.mp shape
    cases Option.some.inj same
    exact .appendReply member inFlight kept ran

theorem step_effect {cluster later : Cluster} {action : Action} (step : Step cluster action later) :
    Effect cluster (cluster.delivered action) later := by
  cases action with
  | start id =>
    obtain ⟨member, shape⟩ := guarded step
    cases Option.some.inj shape
    exact .start member
  | stop id =>
    obtain ⟨member, shape⟩ := guarded step
    cases Option.some.inj shape
    exact .stop member
  | startElection id =>
    obtain ⟨member, shape⟩ := guarded step
    obtain ⟨⟨node, requests⟩, ran, same⟩ := Option.bind_eq_some_iff.mp shape
    cases Option.some.inj same
    exact .campaign member ran
  | propose id command =>
    obtain ⟨member, shape⟩ := guarded step
    cases Option.some.inj shape
    exact .propose member
  | sendHeartbeats id =>
    obtain ⟨member, shape⟩ := guarded step
    obtain ⟨requests, ran, same⟩ := Option.bind_eq_some_iff.mp shape
    cases Option.some.inj same
    exact .heartbeat member ran
  | deliver position =>
    obtain ⟨packet, found, received⟩ := Option.bind_eq_some_iff.mp step
    have inFlight := List.mem_of_getElem? found
    have taken : cluster.delivered (.deliver position) = some packet := found
    rw [taken]
    exact receive_effect inFlight (fun other member => List.mem_of_mem_eraseIdx member) received
  | drop position =>
    cases Option.some.inj step
    exact .quiet fun packet member => List.mem_of_mem_eraseIdx member
  | duplicate position =>
    obtain ⟨packet, found, shape⟩ := Option.bind_eq_some_iff.mp step
    cases Option.some.inj shape
    refine @Effect.quiet cluster (cluster.net ++ [packet]) fun other member => ?_
    rcases List.mem_append.mp member with old | copy
    · exact old
    · rw [List.mem_singleton.mp copy]
      exact List.mem_of_getElem? found

inductive Move (cluster : Cluster) (packet : Option Packet) (id : Int) : RaftNode → Prop where
  | same : Move cluster packet id (cluster.node id)
  | start : Move cluster packet id (cluster.node id).start
  | stop : Move cluster packet id (cluster.node id).stop
  | propose {command : Bytes} (leads : (cluster.node id).state = .leader) :
      Move cluster packet id ((cluster.node id).propose command).1
  | campaign (free : (cluster.node id).state ≠ .leader) :
      Move cluster packet id (cluster.node id).becomeCandidate
  | winAlone (free : (cluster.node id).state ≠ .leader)
      (majority : (cluster.node id).becomeCandidate.hasMajority) :
      Move cluster packet id (cluster.node id).becomeCandidate.becomeLeader
  | vote {request : RpcMessage} (delivers : packet = some (.voteRequest id request))
      (inFlight : .voteRequest id request ∈ cluster.net)
      (fresh : (cluster.node id).currentTerm ≤ request.term)
      (free : (cluster.node id).currentTerm < request.term ∨ (cluster.node id).votedFor = -1 ∨
        (cluster.node id).votedFor = request.senderId) :
      Move cluster packet id ((cluster.node id).voting request.term request.senderId)
  | stepDown {term : Int} (above : (cluster.node id).currentTerm < term) :
      Move cluster packet id ((cluster.node id).stepDown term)
  | count {peer : Int} {reply : RpcMessage}
      (inFlight : .voteReply id (cluster.node id).currentTerm peer reply ∈ cluster.net)
      (campaigning : (cluster.node id).state = .candidate)
      (current : reply.term = (cluster.node id).currentTerm) (granted : reply.payload = yes) :
      Move cluster packet id ((cluster.node id).addVote peer)
  | win {peer : Int} {reply : RpcMessage}
      (inFlight : .voteReply id (cluster.node id).currentTerm peer reply ∈ cluster.net)
      (campaigning : (cluster.node id).state = .candidate)
      (current : reply.term = (cluster.node id).currentTerm) (granted : reply.payload = yes)
      (majority : ((cluster.node id).addVote peer).hasMajority) :
      Move cluster packet id ((cluster.node id).addVote peer).becomeLeader
  | follow {term leader : Int} {args : AppendEntriesArgs}
      (inFlight : .appendRequest id term leader args ∈ cluster.net)
      (fresh : (cluster.node id).currentTerm ≤ term) :
      Move cluster packet id ((cluster.node id).seeLeader term leader)
  | accept {term leader : Int} {args : AppendEntriesArgs} {node : RaftNode}
      (inFlight : .appendRequest id term leader args ∈ cluster.net)
      (fresh : (cluster.node id).currentTerm ≤ term)
      (matching : ∃ prev, (cluster.node id).logAt args.prevLogIndex = some prev ∧
        prev.term = args.prevLogTerm)
      (ran : ((cluster.node id).seeLeader term leader).acceptEntries args = some node) :
      Move cluster packet id node
  | next {peer value : Int} (leads : (cluster.node id).state = .leader) :
      Move cluster packet id ((cluster.node id).setNextIndex peer value)
  | acknowledge {peer sent : Int} {reply : RpcMessage} {node : RaftNode}
      (delivers : packet = some (.appendReply id peer sent reply))
      (inFlight : .appendReply id peer sent reply ∈ cluster.net)
      (leads : (cluster.node id).state = .leader) (runs : (cluster.node id).running = true)
      (current : reply.term ≤ (cluster.node id).currentTerm)
      (typed : reply.type = .appendEntriesReply) (accepted : reply.payload = yes)
      (ran : ((cluster.node id).acknowledge peer sent).advanceCommitIndexLocked = some node) :
      Move cluster packet id node

theorem Effect.members {cluster later : Cluster} {packet : Option Packet}
    (effect : Effect cluster packet later) : later.members = cluster.members := by
  cases effect <;> rfl

theorem propose_move (cluster : Cluster) (packet : Option Packet) (id : Int) (command : Bytes) :
    Move cluster packet id ((cluster.node id).propose command).1 := by
  by_cases leads : (cluster.node id).state = .leader
  · exact .propose leads
  · have unchanged : ((cluster.node id).propose command).1 = cluster.node id := by
      simp [RaftNode.propose, leads]
    rw [unchanged]
    exact .same

theorem Effect.move {cluster later : Cluster} {packet : Option Packet}
    (effect : Effect cluster packet later) (id : Int) : Move cluster packet id (later.node id) := by
  -- every effect but the two silent ones replaces the node of one member
  have one : ∀ (target : Int) (node : RaftNode) (base : Cluster), base.node = cluster.node →
      Move cluster packet target node → Move cluster packet id ((base.set target node).node id) := by
    intro target node base same move
    by_cases here : id = target
    · subst here
      rw [set_same]
      exact move
    · rw [set_other _ _ _ here, same]
      exact .same
  cases effect with
  | quiet kept => exact .same
  | heartbeat member ran => exact .same
  | start member => exact one _ _ _ rfl .start
  | stop member => exact one _ _ _ rfl .stop
  | propose member => exact one _ _ _ rfl (propose_move _ _ _ _)
  | campaign member ran =>
    refine one _ _ _ rfl ?_
    rcases RaftNode.startElection_cases ran with ⟨rfl, -⟩ | ⟨-, free, -, ⟨majority, rfl, -⟩ | ⟨rfl, -⟩⟩
    · exact .same
    · exact .winAlone free majority
    · exact .campaign free
  | @vote target request net member inFlight kept =>
    refine one _ _ (cluster.withNet net) rfl ?_
    rcases RaftNode.handleRequestVote_cases (cluster.node target) request.term request.senderId with
      same | ⟨fresh, free, same⟩
    · rw [same]
      exact .same
    · rw [same]
      exact .vote rfl inFlight fresh free
  | @voteReply target electionTerm peer reply net member inFlight kept =>
    refine one _ _ (cluster.withNet net) rfl ?_
    rcases RaftNode.handleVoteReply_cases (cluster.node target) electionTerm peer reply with
      same | ⟨above, same⟩ | ⟨campaigning, rfl, current, granted, ⟨majority, same⟩ | same⟩
    · rw [same]
      exact .same
    · rw [same]
      exact .stepDown above
    · rw [same]
      exact .win inFlight campaigning current granted majority
    · rw [same]
      exact .count inFlight campaigning current granted
  | @append target term leader args net node reply member inFlight kept ran =>
    refine one _ _ (cluster.withNet net) rfl ?_
    rcases RaftNode.handleAppendEntries_cases ran with
      ⟨-, rfl, -⟩ | ⟨fresh, rfl, -⟩ | ⟨fresh, -, matching, accepts⟩
    · exact .same
    · exact .follow inFlight fresh
    · exact .accept inFlight fresh matching accepts
  | @appendReply target peer sent reply net node member inFlight kept ran =>
    refine one _ _ (cluster.withNet net) rfl ?_
    rcases RaftNode.handleAppendEntriesReply_cases ran with
      rfl | ⟨above, rfl⟩ | ⟨leads, current, rfl | ⟨runs, typed, accepted, advanced⟩⟩
    · exact .same
    · exact .stepDown above
    · exact .next leads
    · exact .acknowledge rfl inFlight leads runs current typed accepted advanced

/-- A packet a step puts in flight, with the state of the node that sent it after the step. -/
inductive Sent (cluster later : Cluster) : Packet → Prop where
  | voteRequest {id peer : Int} (member : id ∈ cluster.members)
      (sender : later.node id = (cluster.node id).becomeCandidate)
      (listed : peer ∈ (cluster.node id).peers) :
      Sent cluster later (.voteRequest peer
        ⟨.requestVote, (later.node id).currentTerm, (later.node id).nodeId, []⟩)
  | refusal {target electionTerm candidate : Int} {reply : RpcMessage} (refused : reply.payload = no) :
      Sent cluster later (.voteReply candidate electionTerm target reply)
  | grant {target : Int} {request : RpcMessage} (member : target ∈ cluster.members)
      (inFlight : .voteRequest target request ∈ cluster.net)
      (voter : later.node target = (cluster.node target).voting request.term request.senderId) :
      Sent cluster later (.voteReply request.senderId request.term target
        ((later.node target).requestVoteReply true))
  | appendRequest {id peer : Int} {args : AppendEntriesArgs} (member : id ∈ cluster.members)
      (sender : later.node id = cluster.node id) (leads : (cluster.node id).state = .leader)
      (listed : peer ∈ (cluster.node id).peers)
      (built : (cluster.node id).heartbeatFor peer = some (peer, args)) :
      Sent cluster later (.appendRequest peer (cluster.node id).currentTerm
        (cluster.node id).nodeId args)
  | rejection {target leader sent : Int} {reply : RpcMessage} (refused : reply.payload = no) :
      Sent cluster later (.appendReply leader target sent reply)
  | acceptance {target term leader : Int} {args : AppendEntriesArgs}
      (member : target ∈ cluster.members)
      (inFlight : .appendRequest target term leader args ∈ cluster.net)
      (fresh : (cluster.node target).currentTerm ≤ term)
      (matching : ∃ prev, (cluster.node target).logAt args.prevLogIndex = some prev ∧
        prev.term = args.prevLogTerm)
      (ran : ((cluster.node target).seeLeader term leader).acceptEntries args =
        some (later.node target)) :
      Sent cluster later (.appendReply leader target (args.prevLogIndex + args.entries.length)
        ((later.node target).appendEntriesReply true))

theorem heartbeatFor_peer {node : RaftNode} {peer : Int} {request : Int × AppendEntriesArgs}
    (built : node.heartbeatFor peer = some request) : request.1 = peer := by
  unfold RaftNode.heartbeatFor at built
  split at built
  · cases built
  · cases Option.some.inj built
    rfl

theorem Effect.sent {cluster later : Cluster} {packet : Option Packet}
    (effect : Effect cluster packet later) {other : Packet} (inFlight : other ∈ later.net) :
    other ∈ cluster.net ∨ Sent cluster later other := by
  cases effect with
  | quiet kept => exact .inl (kept other inFlight)
  | start member => exact .inl inFlight
  | stop member => exact .inl inFlight
  | propose member => exact .inl inFlight
  | @campaign id node requests member ran =>
    refine (List.mem_append.mp inFlight).imp_right fun added => ?_
    rcases RaftNode.startElection_cases ran with
      ⟨-, rfl⟩ | ⟨-, -, -, ⟨-, -, rfl⟩ | ⟨shape, rfl⟩⟩
    · simp at added
    · simp at added
    · simp only [RaftNode.voteRequests, List.map_map, List.mem_map, Function.comp_apply] at added
      obtain ⟨peer, listed, rfl⟩ := added
      subst shape
      have request := @Sent.voteRequest cluster
        ((cluster.set id (cluster.node id).becomeCandidate).send
          ((cluster.node id).becomeCandidate.voteRequests.map fun r => .voteRequest r.1 r.2))
        id peer member (set_same _ _ _) listed
      simpa only [send_node, set_same] using request
  | @heartbeat id requests member ran =>
    refine (List.mem_append.mp inFlight).imp_right fun added => ?_
    obtain ⟨request, listed, rfl⟩ := List.mem_map.mp added
    unfold RaftNode.sendHeartbeats at ran
    split_ifs at ran with idle
    · cases Option.some.inj ran
      simp at listed
    · simp only [not_or, ne_eq, Decidable.not_not] at idle
      obtain ⟨peer, known, built⟩ := mem_of_mapM ran listed
      have named := heartbeatFor_peer built
      rw [← named] at known built
      exact .appendRequest member rfl idle.2 known built
  | @vote target request net member old kept =>
    rcases List.mem_append.mp inFlight with before | added
    · exact .inl (kept other before)
    · right
      rw [List.mem_singleton.mp added]
      rcases RaftNode.handleRequestVote_cases (cluster.node target) request.term request.senderId with
        same | ⟨-, -, same⟩
      · rw [same]
        exact .refusal rfl
      · have reply := @Sent.grant cluster (((cluster.withNet net).set target
          ((cluster.node target).voting request.term request.senderId)).send
            [.voteReply request.senderId request.term target
              (((cluster.node target).voting request.term request.senderId).requestVoteReply true)])
          target request member old (set_same _ _ _)
        rw [same]
        simpa only [send_node, set_same] using reply
  | voteReply member old kept => exact .inl (kept other inFlight)
  | @append target term leader args net node reply member old kept ran =>
    rcases List.mem_append.mp inFlight with before | added
    · exact .inl (kept other before)
    · right
      rw [List.mem_singleton.mp added]
      rcases RaftNode.handleAppendEntries_cases ran with
        ⟨-, -, rfl⟩ | ⟨-, -, rfl⟩ | ⟨fresh, rfl, matching, accepts⟩
      · exact .rejection rfl
      · exact .rejection rfl
      · have reply := @Sent.acceptance cluster (((cluster.withNet net).set target node).send
            [.appendReply leader target (args.prevLogIndex + args.entries.length)
              (node.appendEntriesReply true)]) target term leader args member old fresh matching
              (by rw [send_node, set_same]; exact accepts)
        simpa only [send_node, set_same] using reply
  | appendReply member old kept ran => exact .inl (kept other inFlight)

end Cluster
end QuorumDB.Raft
