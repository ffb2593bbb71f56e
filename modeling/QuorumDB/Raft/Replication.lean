import QuorumDB.Raft.Commit
import QuorumDB.Raft.NodeRun

/-!
Replication in a cluster: the indexes a leader keeps for its peers stay inside its log
where it takes acknowledgements of its own term only, and a follower that accepts a
request agrees with the leader that built it.
-/

namespace QuorumDB.Raft
open Execution TermLog
open RaftNode (placeEntries)

namespace RaftNode

variable {node later : RaftNode}

inductive IndexMove (node later : RaftNode) (peer : Int) : Prop where
  | reset (next : later.nextIndex peer = later.log.length) (matched : later.matchIndex peer = 0)
  | keep (next : later.nextIndex peer = node.nextIndex peer) (matched : later.matchIndex peer = node.matchIndex peer)
  | back (next : later.nextIndex peer = max 1 (node.nextIndex peer - 1))
      (matched : later.matchIndex peer = node.matchIndex peer)
  | acknowledged (next : later.nextIndex peer = later.matchIndex peer + 1)
      (matched : node.matchIndex peer ≤ later.matchIndex peer)

/-- A step after which a node leads: it has just won, or it led before and its log did not shrink. -/
def LeadsOn (node later : RaftNode) : Prop :=
  (∀ peer ∈ later.peers, IndexMove node later peer) ∧
    ((∀ peer ∈ later.peers, later.nextIndex peer = later.log.length ∧ later.matchIndex peer = 0) ∨
      node.state = .leader ∧ node.log.length ≤ later.log.length)

theorem leadsOn_won (node before : RaftNode) : node.LeadsOn before.becomeLeader := by
  have reset : ∀ peer ∈ before.becomeLeader.peers,
      before.becomeLeader.nextIndex peer = before.becomeLeader.log.length ∧ before.becomeLeader.matchIndex peer = 0 :=
    fun peer listed => ⟨if_pos listed, if_pos listed⟩
  exact ⟨fun peer listed => .reset (reset peer listed).1 (reset peer listed).2, .inl reset⟩

theorem leadsOn_kept (leads : node.state = .leader) (length : node.log.length ≤ later.log.length)
    (next : later.nextIndex = node.nextIndex) (matched : later.matchIndex = node.matchIndex) : node.LeadsOn later :=
  ⟨fun peer _ => .keep (congrFun next peer) (congrFun matched peer), .inr ⟨leads, length⟩⟩

theorem advance_indexes {rounds : Nat} (ran : node.commitScan rounds = some later) :
    later.nextIndex = node.nextIndex ∧ later.matchIndex = node.matchIndex ∧ later.log = node.log := by
  obtain ⟨commitIndex, lastApplied, commits, rfl⟩ := commitScan_frame ran
  exact ⟨rfl, rfl, rfl⟩

theorem leadsOn_back {peer : Int} (led : node.state = .leader) :
    node.LeadsOn (node.setNextIndex peer (max 1 (node.nextIndex peer - 1))) := by
  refine ⟨fun other _ => ?_, .inr ⟨led, Nat.le_refl _⟩⟩
  by_cases same : other = peer
  · subst same
    exact .back (Function.update_self ..) rfl
  · exact .keep (Function.update_of_ne same _ _) rfl

theorem leadsOn_acknowledged {peer sent : Int} (led : node.state = .leader)
    (ran : (node.acknowledge peer sent).advanceCommitIndexLocked = some later) : node.LeadsOn later := by
  obtain ⟨commitIndex, lastApplied, commits, rfl⟩ := commitScan_frame ran
  refine ⟨fun other _ => ?_, .inr ⟨led, Nat.le_refl _⟩⟩
  by_cases same : other = peer
  · subst same
    have raised : (node.acknowledge other sent).matchIndex other = max (node.matchIndex other) sent :=
      Function.update_self ..
    have after : (node.acknowledge other sent).nextIndex other = max (node.matchIndex other) sent + 1 :=
      Function.update_self ..
    refine .acknowledged (after.trans ?_) ?_
    · exact congrArg (· + 1) raised.symm
    · exact Int.le_trans (le_max_left _ _) (Int.le_of_eq raised.symm)
  · exact .keep (Function.update_of_ne same _ _) (Function.update_of_ne same _ _)

theorem act_leadsOn {action : NodeAction} (moved : node.act action = some later) (leads : later.state = .leader) :
    node.LeadsOn later := by
  cases act_turn moved with
  | same => exact leadsOn_kept leads (Nat.le_refl _) rfl rfl
  | start => cases leads
  | stop => exact leadsOn_kept leads (Nat.le_refl _) rfl rfl
  | setOnCommitCallback => exact leadsOn_kept leads (Nat.le_refl _) rfl rfl
  | campaign => cases leads
  | winAlone => exact leadsOn_won node _
  | propose => exact leadsOn_kept leads (by rw [List.length_append]; exact Nat.le_add_right _ _) rfl rfl
  | vote => cases leads
  | follow => cases leads
  | accept fresh matching accepted =>
    obtain ⟨commitIndex, lastApplied, commits, rfl⟩ := acceptEntries_frame accepted
    cases leads
  | stepDown => cases leads
  | count campaigning => exact absurd (campaigning.symm.trans leads) (by decide)
  | win => exact leadsOn_won node _
  | back led => exact leadsOn_back led
  | acknowledge led advanced => exact leadsOn_acknowledged led advanced

end RaftNode

namespace Cluster

theorem step_moved {cluster later : Cluster} {action : Action} (step : Step cluster action later) (id : Int) :
    later.node id = cluster.node id ∨ ∃ moved, (cluster.node id).act moved = some (later.node id) ∧
      ∀ command, moved = .propose command → action = .propose id command := by
  have one : ∀ {target : Int} {node : RaftNode} {base : Cluster} (moved : NodeAction), base.node = cluster.node →
      (cluster.node target).act moved = some node → (∀ command, moved = .propose command → action = .propose target command) →
      (base.set target node).node id = cluster.node id ∨ ∃ moved, (cluster.node id).act moved = some ((base.set target node).node id) ∧
        ∀ command, moved = .propose command → action = .propose id command := by
    intro target node base moved same acted named
    by_cases here : id = target
    · subst here
      rw [set_same]
      exact .inr ⟨moved, acted, named⟩
    · rw [set_other _ _ _ here, same]
      exact .inl rfl
  cases action with
  | start target =>
    obtain ⟨-, shape⟩ := guarded step
    cases Option.some.inj shape
    exact one .start rfl rfl nofun
  | stop target =>
    obtain ⟨-, shape⟩ := guarded step
    cases Option.some.inj shape
    exact one .stop rfl rfl nofun
  | startElection target =>
    obtain ⟨-, shape⟩ := guarded step
    obtain ⟨⟨node, requests⟩, ran, same⟩ := Option.bind_eq_some_iff.mp shape
    cases Option.some.inj same
    exact one .startElection rfl (Option.map_eq_some_iff.mpr ⟨_, ran, rfl⟩) nofun
  | propose target command =>
    obtain ⟨-, shape⟩ := guarded step
    cases Option.some.inj shape
    exact one (.propose command) rfl rfl fun other same => by cases same; rfl
  | sendHeartbeats target =>
    obtain ⟨-, shape⟩ := guarded step
    obtain ⟨requests, -, same⟩ := Option.bind_eq_some_iff.mp shape
    cases Option.some.inj same
    exact .inl rfl
  | deliver position =>
    obtain ⟨packet, -, received⟩ := Option.bind_eq_some_iff.mp step
    cases packet with
    | voteRequest target request =>
      obtain ⟨-, shape⟩ := guarded received
      cases Option.some.inj shape
      exact one (.requestVote request.term request.senderId) rfl rfl nofun
    | voteReply target electionTerm peer reply =>
      obtain ⟨-, shape⟩ := guarded received
      cases Option.some.inj shape
      exact one (.voteReply electionTerm peer reply) rfl rfl nofun
    | appendRequest target term leader args =>
      obtain ⟨-, shape⟩ := guarded received
      obtain ⟨⟨node, reply⟩, ran, same⟩ := Option.bind_eq_some_iff.mp shape
      cases Option.some.inj same
      exact one (.appendEntries term leader args) rfl (Option.map_eq_some_iff.mpr ⟨_, ran, rfl⟩) nofun
    | appendReply target peer sent reply =>
      obtain ⟨-, shape⟩ := guarded received
      obtain ⟨node, ran, same⟩ := Option.bind_eq_some_iff.mp shape
      cases Option.some.inj same
      exact one (.appendReply peer sent reply) rfl ran nofun
  | drop position =>
    cases Option.some.inj step
    exact .inl rfl
  | duplicate position =>
    obtain ⟨packet, -, shape⟩ := Option.bind_eq_some_iff.mp step
    cases Option.some.inj shape
    exact .inl rfl

theorem step_act {cluster later : Cluster} {action : Action} (step : Step cluster action later) (id : Int) :
    later.node id = cluster.node id ∨ ∃ moved, (cluster.node id).act moved = some (later.node id) :=
  (step_moved step id).imp_right fun ⟨moved, acted, _⟩ => ⟨moved, acted⟩

end Cluster

/-- The indexes a leader keeps for each peer point into its log. -/
def IndexesInside (cluster : Cluster) : Prop :=
  ∀ id ∈ cluster.members, (cluster.node id).state = .leader → ∀ peer ∈ (cluster.node id).peers,
    1 ≤ (cluster.node id).nextIndex peer ∧ (cluster.node id).nextIndex peer ≤ (cluster.node id).log.length ∧
      0 ≤ (cluster.node id).matchIndex peer ∧ (cluster.node id).matchIndex peer < (cluster.node id).log.length

section Runs

variable {past : List Cluster} {cluster later : Cluster} {action : Action}

theorem log_pos (run : Cluster.Reaches past cluster) {id : Int} (member : id ∈ cluster.members) :
    0 < (cluster.node id).log.length :=
  Nat.lt_of_lt_of_le Nat.one_pos ((logInv run).logs id member).head.length_le

theorem matchIndex_lt (run : CurrentlyReaches past cluster) {id : Int} (member : id ∈ cluster.members)
    (leads : (cluster.node id).state = .leader) {peer : Int} (listed : peer ∈ (cluster.node id).peers) :
    (cluster.node id).matchIndex peer < (cluster.node id).log.length := by
  have reaches := Cluster.ReachesWhen.reaches run
  rcases (ackInv run).matched id member leads peer listed with low | ⟨n, same, inside, -⟩
  · have some := log_pos reaches member
    omega
  · rw [termLog_leader reaches member leads] at inside
    omega

theorem indexesInside_step (before : CurrentlyReaches past cluster) (step : CurrentStep cluster action later)
    (known : IndexesInside cluster) : IndexesInside later := by
  intro id member leads peer listed
  have run : CurrentlyReaches (cluster :: past) later := .next before step
  have matched := matchIndex_lt run member leads listed
  have some := log_pos (Cluster.ReachesWhen.reaches run) member
  have effect := Cluster.step_effect step.1
  have member_before : id ∈ cluster.members := effect.members ▸ member
  have listed_before : peer ∈ (cluster.node id).peers := (effect.move id).identity.peers ▸ listed
  rcases Cluster.step_act step.1 id with same | ⟨moved, acted⟩
  · rw [same] at leads ⊢
    exact known id member_before leads peer listed_before
  · obtain ⟨moves, reset | ⟨led, length⟩⟩ := RaftNode.act_leadsOn acted leads
    · obtain ⟨next, zero⟩ := reset peer listed
      omega
    · obtain ⟨low, high, nonneg, -⟩ := known id member_before led peer listed_before
      cases moves peer listed with
      | reset next zero => omega
      | keep next same => omega
      | back next same => omega
      | acknowledged next raised => omega

/-- Where leaders take acknowledgements of their own term only, SendHeartbeats reads inside the log. -/
theorem indexes_inside (run : CurrentlyReaches past cluster) : IndexesInside cluster := by
  refine @Run.invariant _ _ Cluster.Initial (Cluster.StepWhen CurrentReplies) (fun _ state => IndexesInside state) ?_
    (fun _ _ _ _ before known step => indexesInside_step before step known) _ _ run
  intro fresh initial id member leads
  obtain ⟨peers, onCommit, shape, -⟩ := initial.2.2.2 id member
  rw [shape] at leads
  cases leads

end Runs

theorem indexes_inside_trio : ∃ past cluster, CurrentlyReaches past cluster ∧ (cluster.node 1).state = .leader ∧
    (cluster.node 1).matchIndex 2 = 1 ∧ IndexesInside cluster := by
  have replicated : ∃ visited ∈ replay (Cluster.actWhen CurrentReplies) Cluster.trio
      [.start 1, .start 2, .start 3, .startElection 1, .deliver 0, .deliver 1, .propose 1 [0x61],
        .sendHeartbeats 1, .deliver 1, .deliver 2],
      (visited.2.node 1).state = .leader ∧ (visited.2.node 1).matchIndex 2 = 1 := by
    decide +kernel
  obtain ⟨visited, played, leads, matched⟩ := replicated
  have run := Cluster.trio_replay played
  exact ⟨_, _, run, leads, matched, indexes_inside run⟩

/-- The acknowledgement of two entries that node 1 has lost reaches it when it leads again with one. -/
theorem indexes_inside_fails : ¬ ∀ past cluster,
    Cluster.ReachesWhen Cluster.NoDuplicate past cluster → IndexesInside cluster := by
  intro inside
  have outrun : ∃ visited ∈ replay (Cluster.actWhen Cluster.NoDuplicate) Cluster.trio
      [.start 1, .start 2, .start 3, .startElection 1, .deliver 0, .deliver 1, .propose 1 [0x61],
        .propose 1 [0x62], .sendHeartbeats 1, .deliver 1, .startElection 3, .startElection 3,
        .deliver 5, .deliver 6, .propose 3 [0x63], .sendHeartbeats 3, .deliver 6, .startElection 1,
        .deliver 9, .deliver 9, .deliver 2],
      visited.2.members = [1, 2, 3] ∧ (visited.2.node 1).state = .leader ∧ (visited.2.node 1).peers = [2, 3] ∧
        (visited.2.node 1).nextIndex 2 = 3 ∧ (visited.2.node 1).log.length = 2 := by
    decide +kernel
  obtain ⟨visited, played, members, leads, peers, next, length⟩ := outrun
  have bounds := inside _ _ (Cluster.trio_replay played) 1 (by rw [members]; decide) leads 2 (by rw [peers]; decide)
  omega

section Agreement

variable {past : List Cluster} {cluster : Cluster}

theorem termLog_earlier (run : Cluster.Reaches past cluster) {earlier : Cluster} {older : List Cluster}
    (within : earlier :: older <:+ cluster :: past) (term : Int) :
    termLog (earlier :: older) term <+: termLog (cluster :: past) term := by
  refine @Run.onward _ _ _ _ (fun past state => termLog (earlier :: older) term <+: termLog (state :: past) term)
    earlier older (List.prefix_refl _) ?_ _ _ run within
  exact fun _ _ _ _ before known step => known.trans (termLog_grows before step term)

theorem node_sound (run : Cluster.Reaches past cluster) {id : Int} (member : id ∈ cluster.members) :
    (cluster.node id).Sound := by
  induction run with
  | start fresh =>
    obtain ⟨peers, onCommit, shape, -⟩ := fresh.2.2.2 id member
    rw [shape]
    exact RaftNode.sound_new id peers onCommit
  | next before step ih =>
    have known := ih ((Cluster.step_effect step).members ▸ member)
    rcases Cluster.step_act step id with same | ⟨moved, acted⟩
    · rw [same]
      exact known
    · exact (RaftNode.act_sound known acted).1

structure Builds (built : Cluster) (leader peer : Int) (args : AppendEntriesArgs) : Prop where
  member : leader ∈ built.members
  running : (built.node leader).running = true
  leads : (built.node leader).state = .leader
  listed : peer ∈ (built.node leader).peers
  request : (built.node leader).heartbeatFor peer = some (peer, args)

/-- What an answer says of the follower, before and after, and of the leader when it built the request. -/
structure Answers (leader before after : RaftNode) (args : AppendEntriesArgs) (reply : RpcMessage) : Prop where
  agrees : reply.payload = yes → ∀ position : Nat, position ≤ args.prevLogIndex + args.entries.length →
    after.log[position]? = leader.log[position]?
  commits : reply.payload = yes → after.commitIndex ≠ before.commitIndex →
    after.commitIndex ≤ leader.commitIndex ∧ after.commitIndex ≤ args.prevLogIndex + args.entries.length
  unchanged : reply.payload ≠ yes → after.log = before.log ∧ after.commitIndex = before.commitIndex ∧
    after.lastApplied = before.lastApplied

theorem accepted_front (run : Cluster.Reaches past cluster) {target term : Int} (member : target ∈ cluster.members)
    {args : AppendEntriesArgs} {pre log : List LogEntry} {prev : LogEntry}
    (listed : pre ++ prev :: args.entries <+: termLog (cluster :: past) term)
    (index : args.prevLogIndex = (pre.length : Int)) (level : args.prevLogTerm = prev.term)
    (matching : ∃ found, (cluster.node target).logAt args.prevLogIndex = some found ∧ found.term = args.prevLogTerm)
    (shape : log = placeEntries (cluster.node target).log args.prevLogIndex.toNat args.entries) :
    pre ++ prev :: args.entries <+: log := by
  obtain ⟨n, last, -, outcome⟩ := (logInv run).repaired_served member ⟨pre, prev, listed, index, level⟩ matching shape
  have length : (pre ++ prev :: args.entries).length = n + 1 := by
    rw [List.length_append, List.length_cons]
    omega
  have taken : (termLog (cluster :: past) term).take (n + 1) = pre ++ prev :: args.entries := by
    rw [← take_prefix_take listed length.ge, ← length, List.take_length]
  rw [taken] at outcome
  rcases outcome with ⟨held, same⟩ | ⟨-, same⟩
  · rw [same]
    exact held
  · rw [same]

/-- A request built at any earlier moment is answered, and its answer says what it should. -/
theorem accepted_agrees (run : Cluster.Reaches past cluster) {built : Cluster} (seen : built ∈ cluster :: past)
    {leader peer : Int} {args : AppendEntriesArgs} (builds : Builds built leader peer args) {target : Int}
    (member : target ∈ cluster.members) :
    ∃ node reply, (cluster.node target).handleAppendEntries (built.node leader).currentTerm
        (built.node leader).nodeId args = some (node, reply) ∧
      Answers (built.node leader) (cluster.node target) node args reply := by
  obtain ⟨older, reached, within⟩ := run.visited seen
  obtain ⟨commit, pre, prev, whole, index, level⟩ := heartbeatFor_served builds.request
  have listed := termLog_leader reached builds.member builds.leads
  have book := termLog_earlier run within (built.node leader).currentTerm
  rw [listed] at book
  have served : Served (termLog (cluster :: past)) (built.node leader).currentTerm args :=
    ⟨pre, prev, whole ▸ book, index, level⟩
  obtain ⟨node, reply, ran, -⟩ := @RaftNode.handleAppendEntries_sound (cluster.node target)
    (node_sound run member) (built.node leader).currentTerm (built.node leader).nodeId args fun _ => by omega
  refine ⟨node, reply, ran, ?_⟩
  obtain ⟨log, commitIndex, lastApplied, -⟩ := RaftNode.seeLeader_fields (cluster.node target)
    (built.node leader).currentTerm (built.node leader).nodeId
  have refused : ∀ other : RaftNode, (other.appendEntriesReply false).payload ≠ yes := fun _ => by
    change no ≠ yes
    decide
  rcases RaftNode.handleAppendEntries_cases ran with ⟨-, rfl, rfl⟩ | ⟨-, rfl, rfl⟩ | ⟨-, rfl, matching, accepted⟩
  · exact ⟨fun success => absurd success (refused _), fun success => absurd success (refused _), fun _ => ⟨rfl, rfl, rfl⟩⟩
  · exact ⟨fun success => absurd success (refused _), fun success => absurd success (refused _),
      fun _ => ⟨log, commitIndex, lastApplied⟩⟩
  · refine ⟨fun _ position below => ?_, fun _ changed => ?_, fun failure => absurd rfl failure⟩
    · have shape := RaftNode.acceptEntries_log accepted
      rw [log] at shape
      have front := accepted_front run member (whole ▸ book) index level matching shape
      have length := congrArg List.length whole
      rw [List.length_append, List.length_cons] at length
      rw [whole] at front
      have present : position < (built.node leader).log.length := by omega
      rw [List.getElem?_eq_getElem present]
      exact getElem?_mono front (List.getElem?_eq_getElem present)
    · rcases RaftNode.acceptEntries_cases accepted with rfl | ⟨applied, commits, -, rfl, -⟩
      · exact absurd commitIndex changed
      · change min args.leaderCommit (args.prevLogIndex + args.entries.length) ≤ _ ∧
          min args.leaderCommit (args.prevLogIndex + args.entries.length) ≤ _
        rw [← commit]
        exact ⟨min_le_left _ _, min_le_right _ _⟩

end Agreement

/-- Node 2 takes the request that node 1 built for it when it led with one command, and has that command then. -/
theorem accepted_agrees_trio : ∃ past cluster built args node reply, Cluster.Reaches past cluster ∧
    built ∈ cluster :: past ∧ (built.node 1).log.length = 2 ∧
    (cluster.node 2).handleAppendEntries (built.node 1).currentTerm (built.node 1).nodeId args = some (node, reply) ∧
      Answers (built.node 1) (cluster.node 2) node args reply ∧ reply.payload = yes ∧
      node.log[1]? = (built.node 1).log[1]? := by
  have sent : ∃ visited ∈ replay (Cluster.actWhen Cluster.NoDuplicate) Cluster.trio
      [.start 1, .start 2, .start 3, .startElection 1, .deliver 0, .deliver 1, .propose 1 [0x61],
        .sendHeartbeats 1, .propose 1 [0x62]],
      2 ∈ visited.2.members ∧ ∃ built ∈ visited.2 :: visited.1, (built.node 1).log.length = 2 ∧ 1 ∈ built.members ∧
        (built.node 1).running = true ∧ (built.node 1).state = .leader ∧ 2 ∈ (built.node 1).peers ∧
          (built.node 1).heartbeatFor 2 = some (2, ⟨0, 0, 0, [⟨1, 1, [0x61]⟩]⟩) ∧
          ((visited.2.node 2).handleAppendEntries (built.node 1).currentTerm (built.node 1).nodeId
            ⟨0, 0, 0, [⟨1, 1, [0x61]⟩]⟩).map (fun done => done.2.payload) = some yes := by
    decide +kernel
  obtain ⟨visited, played, target, built, seen, length, member, running, leads, listed, request, taken⟩ := sent
  have run := Cluster.ReachesWhen.reaches (Cluster.trio_replay played)
  obtain ⟨node, reply, ran, answers⟩ := accepted_agrees run seen ⟨member, running, leads, listed, request⟩ target
  rw [ran] at taken
  have accepted : reply.payload = yes := Option.some.inj taken
  exact ⟨_, _, built, _, node, reply, run, seen, length, ran, answers, accepted, answers.agrees accepted 1 (by decide)⟩

end QuorumDB.Raft
