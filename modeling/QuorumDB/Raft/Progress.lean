import QuorumDB.Raft.Campaign
import QuorumDB.Raft.Completeness
import QuorumDB.Raft.Redelivery
import QuorumDB.Raft.History

/-!
Commands that are committed. From any state of a careful execution a majority whose nodes run can
elect a leader, give it a command, and bring the command to all its members, where it is applied.
-/

namespace QuorumDB.Raft
open Execution Quorum TermLog

namespace RaftNode

variable {peer : Int} {leader follower informed answered : RaftNode} {success : Bool}

/-- What a round leaves of a leader, and what is so once it has succeeded. -/
structure Rounded (peer : Int) (leader informed answered : RaftNode) (success : Bool) : Prop where
  leads : informed.state = .leader
  term : informed.currentTerm = leader.currentTerm
  answer : answered.currentTerm = leader.currentTerm
  others : ∀ other, other ≠ peer → informed.matchIndex other = leader.matchIndex other
  grows : leader.commitIndex ≤ informed.commitIndex
  complete : success = true → informed.CommitsAll
  told : success = true → min leader.commitIndex (leader.log.length - 1) ≤ answered.commitIndex

theorem handleAppendEntriesReply_advances (pairing : Pairing peer leader follower) (sent : Int) {reply : RpcMessage}
    (level : reply.term ≤ leader.currentTerm) (typed : reply.type = .appendEntriesReply) (accepted : reply.payload = yes) :
    leader.handleAppendEntriesReply peer reply sent = (leader.acknowledge peer sent).advanceCommitIndexLocked := by
  unfold handleAppendEntriesReply
  have busy : ¬ (leader.running = false ∨ leader.state ≠ .leader) := by
    rw [pairing.running, pairing.leads]
    decide
  rw [if_neg busy, if_neg (by omega), if_pos typed, if_pos accepted]

theorem commitScan_grows {node later : RaftNode} {rounds : Nat} (ran : node.commitScan rounds = some later) :
    node.commitIndex ≤ later.commitIndex := by
  rcases commitScan_cases ran with rfl | ⟨n, entry, lastApplied, commits, above, -, -, -, rfl, -⟩
  · exact Int.le_refl _
  · exact Int.le_of_lt above

theorem round_parts (pairing : Pairing peer leader follower) (ran : round peer leader follower = some (informed, answered, success)) :
    ∃ args reply, leader.heartbeatFor peer = some (peer, args) ∧
      follower.handleAppendEntries leader.currentTerm leader.nodeId args = some (answered, reply) ∧
      leader.handleAppendEntriesReply peer reply (args.prevLogIndex + args.entries.length) = some informed ∧
      leader.currentTerm ≤ reply.term ∧ Rounded peer leader informed answered success := by
  obtain ⟨args, request, -, last⟩ := heartbeatFor_spec pairing.low pairing.high
  unfold round at ran
  rw [request, Option.bind_eq_bind, Option.bind_some] at ran
  obtain ⟨⟨given, reply⟩, handled, ran⟩ := Option.bind_eq_some_iff.mp ran
  obtain ⟨told, replied, same⟩ := Option.bind_eq_some_iff.mp ran
  obtain ⟨rfl, shape⟩ := Prod.mk.inj (Option.some.inj same)
  obtain ⟨rfl, rfl⟩ := Prod.mk.inj shape
  have fresh := pairing.term
  have seen : (follower.seeLeader leader.currentTerm leader.nodeId).currentTerm = leader.currentTerm := by
    rw [seeLeader_eq _ fresh]
  have commit : args.leaderCommit = leader.commitIndex := (heartbeatFor_served request).1
  refine ⟨args, reply, request, handled, replied, ?_⟩
  rcases handleAppendEntries_cases handled with ⟨stale, -⟩ | ⟨-, rfl, rfl⟩ | ⟨-, rfl, -, accepted⟩
  · omega
  · have refused : ((follower.seeLeader leader.currentTerm leader.nodeId).appendEntriesReply false).payload ≠ yes := by
      change no ≠ yes
      decide
    rw [handleAppendEntriesReply_refused pairing _ seen.le rfl refused] at replied
    obtain rfl := Option.some.inj replied
    exact ⟨seen.ge, pairing.leads, rfl, seen, fun _ _ => rfl, Int.le_refl _, fun done => absurd (of_decide_eq_true done) refused,
      fun done => absurd (of_decide_eq_true done) refused⟩
  · have level : given.currentTerm = leader.currentTerm := (acceptEntries_ballot accepted).2.2.1.trans seen
    rw [handleAppendEntriesReply_advances pairing _ level.le rfl rfl] at replied
    obtain ⟨-, state, term, -⟩ := advance_ballot replied
    obtain ⟨-, matched, -⟩ := advance_indexes replied
    have grows := commitScan_grows replied
    refine ⟨level.ge, state.trans pairing.leads, term, level, fun other different => ?_, grows,
      fun _ => advance_commitsAll replied, fun _ => ?_⟩
    · rw [matched]
      exact Function.update_of_ne different _ _
    · rw [← commit, ← last]
      exact acceptEntries_commit accepted

end RaftNode

section Spreading

variable {quorum : Finset Int} {cluster between later : Cluster} {leader peer : Int} {base : RaftNode}

/-- The leader of a term, with the log it had when the spreading of it began. -/
structure Leading (quorum : Finset Int) (leader : Int) (base : RaftNode) (cluster : Cluster) : Prop extends Underway quorum cluster where
  member : leader ∈ quorum
  leads : (cluster.node leader).state = .leader
  log : (cluster.node leader).log = base.log
  term : (cluster.node leader).currentTerm = base.currentTerm
  level : ∀ id ∈ quorum, (cluster.node id).currentTerm ≤ base.currentTerm
  fits : 41 + entriesSize base.log ≤ Rpc.maxMessageSize

structure Serves (leader peer : Int) (cluster later : Cluster) : Prop where
  others : ∀ id, id ≠ leader → id ≠ peer → later.node id = cluster.node id
  counts : ∀ id, id ≠ peer → (later.node leader).matchIndex id = (cluster.node leader).matchIndex id
  grows : (cluster.node leader).commitIndex ≤ (later.node leader).commitIndex

theorem Serves.trans (first : Serves leader peer cluster between) (second : Serves leader peer between later) :
    Serves leader peer cluster later := by
  refine ⟨fun id notLeader notPeer => ?_, fun id notPeer => ?_, first.grows.trans second.grows⟩
  · rw [second.others id notLeader notPeer, first.others id notLeader notPeer]
  · rw [second.counts id notPeer, first.counts id notPeer]

/-- A peer that has the leader's log and has heard of what was committed, up to a limit. -/
structure Holds (leader : Int) (base : RaftNode) (limit : Int) (cluster : Cluster) (peer : Int) : Prop where
  counted : (cluster.node leader).matchIndex peer = base.log.length - 1
  front : base.log <+: (cluster.node peer).log
  told : limit ≤ (cluster.node peer).commitIndex

theorem Holds.serves {limit : Int} {id : Int} (holds : Holds leader base limit cluster id) (serves : Serves leader peer cluster later)
    (notLeader : id ≠ leader) (notPeer : id ≠ peer) : Holds leader base limit later id := by
  have same := serves.others id notLeader notPeer
  refine ⟨(serves.counts id notPeer).trans holds.counted, ?_, ?_⟩
  · rw [same]
    exact holds.front
  · rw [same]
    exact holds.told

theorem Leading.pairing (leading : Leading quorum leader base cluster) (other : peer ∈ quorum) (different : peer ≠ leader) :
    RaftNode.Pairing peer (cluster.node leader) (cluster.node peer) := by
  obtain ⟨past, run⟩ := leading.reached
  have known := leading.toUnderway
  obtain ⟨low, high, -, matched⟩ := known.inside leader (known.mem leading.member) leading.leads peer
    (known.peers leading.member other different)
  apply pairing_reached (Cluster.ReachesWhen.reaches run) (known.mem leading.member) (known.mem other)
    (known.running leader leading.member) leading.leads _ low high matched
  rw [leading.term]
  exact leading.level peer other

theorem Leading.catches {rounds : Nat} (leading : Leading quorum leader base cluster) (other : peer ∈ quorum)
    (different : peer ≠ leader) (enough : (cluster.node leader).nextIndex peer ≤ rounds) :
    Attains (QuorumStep quorum) cluster fun later => Leading quorum leader base later ∧ Serves leader peer cluster later ∧
      (later.node leader).CommitsAll ∧
      Holds leader base (min (cluster.node leader).commitIndex (base.log.length - 1)) later peer := by
  induction rounds generalizing cluster with
  | zero =>
    have low := (leading.pairing other different).low
    omega
  | succ rounds ih =>
    have pairing := leading.pairing other different
    obtain ⟨informed, answered, success, ran, done, again⟩ := RaftNode.round_spec pairing
    obtain ⟨args, reply, request, handled, replied, current, rounded⟩ := RaftNode.round_parts pairing ran
    have fits := leading.fits
    rw [← leading.log] at fits
    apply (exchange leading.toUnderway leading.member other different leading.leads fits request handled replied fun _ => current).trans
    rintro between ⟨underway, members, shape⟩
    have atLeader : between.node leader = informed := by rw [shape, Function.update_self]
    have atPeer : between.node peer = answered := by
      rw [shape, Function.update_of_ne different, Function.update_self]
    have serves : Serves leader peer cluster between := by
      refine ⟨fun id notLeader notPeer => ?_, fun id notPeer => ?_, ?_⟩
      · rw [shape, Function.update_of_ne notLeader, Function.update_of_ne notPeer]
      · rw [atLeader]
        exact rounded.others id notPeer
      · rw [atLeader]
        exact rounded.grows
    have log : informed.log = (cluster.node leader).log := by
      cases success with
      | true => exact (done rfl).log
      | false => exact (again rfl).2.1
    have still : Leading quorum leader base between := by
      refine ⟨underway, leading.member, ?_, ?_, ?_, fun id member => ?_, leading.fits⟩
      · rw [atLeader]
        exact rounded.leads
      · rw [atLeader, log]
        exact leading.log
      · rw [atLeader, rounded.term]
        exact leading.term
      · by_cases isLeader : id = leader
        · rw [isLeader, atLeader, rounded.term]
          exact leading.term.le
        · by_cases isPeer : id = peer
          · rw [isPeer, atPeer, rounded.answer]
            exact leading.term.le
          · rw [serves.others id isLeader isPeer]
            exact leading.level id member
    cases success with
    | true =>
      have caught := done rfl
      refine Attains.here ⟨still, serves, ?_, ?_, ?_, ?_⟩
      · rw [atLeader]
        exact rounded.complete rfl
      · rw [atLeader, caught.matched, log, leading.log]
      · rw [atPeer, ← leading.log, ← log]
        exact caught.front
      · rw [atPeer, ← leading.log]
        exact rounded.told rfl
    | false =>
      obtain ⟨-, -, -, next⟩ := again rfl
      apply (ih still (by rw [atLeader]; omega)).trans
      rintro later ⟨leads, further, complete, holds⟩
      refine Attains.here ⟨leads, serves.trans further, complete, holds.counted, holds.front, le_trans ?_ holds.told⟩
      exact min_le_min_right _ serves.grows

structure Passing (quorum : Finset Int) (leader : Int) (base : RaftNode) (limit : Int) (rest : List Int) (cluster : Cluster) : Prop
    extends Leading quorum leader base cluster where
  distinct : rest.Nodup
  listed : ∀ id ∈ rest, id ∈ quorum ∧ id ≠ leader
  short : limit ≤ base.log.length - 1
  grows : limit ≤ (cluster.node leader).commitIndex
  served : ∀ id ∈ quorum, id ≠ leader → id ∈ rest ∨ Holds leader base limit cluster id
  complete : (∃ id ∈ quorum, id ≠ leader ∧ id ∉ rest) → (cluster.node leader).CommitsAll

/-- All other members have the leader's log and have heard of what it had committed, up to a limit. -/
structure Spread (quorum : Finset Int) (leader : Int) (base : RaftNode) (limit : Int) (cluster : Cluster) : Prop
    extends Leading quorum leader base cluster where
  holds : ∀ id ∈ quorum, id ≠ leader → Holds leader base limit cluster id
  complete : (cluster.node leader).CommitsAll

theorem Passing.serve {limit : Int} {rest : List Int} (passing : Passing quorum leader base limit (peer :: rest) cluster) :
    Attains (QuorumStep quorum) cluster (Passing quorum leader base limit rest) := by
  obtain ⟨other, different⟩ := passing.listed peer List.mem_cons_self
  obtain ⟨fresh, others⟩ := List.nodup_cons.mp passing.distinct
  apply (passing.toLeading.catches other different (Int.self_le_toNat _)).trans
  rintro later ⟨leads, serves, complete, holds⟩
  have told : limit ≤ (later.node peer).commitIndex := (le_min passing.grows passing.short).trans holds.told
  refine Attains.here ⟨leads, others, fun id member => passing.listed id (List.mem_cons_of_mem _ member), passing.short,
    passing.grows.trans serves.grows, fun id member notLeader => ?_, fun _ => complete⟩
  by_cases same : id = peer
  · subst same
    exact .inr ⟨holds.counted, holds.front, told⟩
  · rcases passing.served id member notLeader with waiting | held
    · exact .inl ((List.mem_cons.mp waiting).resolve_left same)
    · exact .inr (held.serves serves notLeader same)

theorem Leading.spreads (leading : Leading quorum leader base cluster) {limit : Int} (short : limit ≤ base.log.length - 1)
    (grows : limit ≤ (cluster.node leader).commitIndex) :
    Attains (QuorumStep quorum) cluster (Spread quorum leader base limit) := by
  have start : Passing quorum leader base limit (quorum.erase leader).toList cluster := by
    have listed : ∀ id, id ∈ (quorum.erase leader).toList ↔ id ∈ quorum ∧ id ≠ leader := by
      intro id
      rw [Finset.mem_toList, Finset.mem_erase, and_comm]
    refine ⟨leading, Finset.nodup_toList _, fun id member => (listed id).mp member, short, grows,
      fun id member notLeader => .inl ((listed id).mpr ⟨member, notLeader⟩), ?_⟩
    rintro ⟨id, member, notLeader, absent⟩
    exact absurd ((listed id).mpr ⟨member, notLeader⟩) absent
  apply Attains.forEach (fun _ _ _ passing => passing.serve.mono fun _ left => .inr left) _ start
  intro last passed
  have served : ∀ id ∈ quorum, id ≠ leader → Holds leader base limit last id := by
    intro id member notLeader
    exact (passed.served id member notLeader).resolve_left List.not_mem_nil
  have large : 1 < quorum.card := by
    have most := leading.majority.2
    have several := leading.several
    omega
  obtain ⟨id, member, notLeader⟩ := Finset.exists_mem_ne large leader
  exact ⟨passed.toLeading, served, passed.complete ⟨id, member, notLeader, List.not_mem_nil⟩⟩

theorem Spread.commits {limit : Int} (spread : Spread quorum leader base limit cluster) {older : List LogEntry} {entry : LogEntry}
    (last : base.log = older ++ [entry]) (current : entry.term = base.currentTerm) :
    (older.length : Int) ≤ (cluster.node leader).commitIndex := by
  have known := spread.toUnderway
  apply spread.complete
  refine ⟨entry, ?_, current.trans spread.term.symm, ?_⟩
  · rw [RaftNode.logAt, if_pos (Int.natCast_nonneg _), Int.toNat_natCast, spread.log, last]
    exact List.getElem?_concat_length
  · have counted : quorum.erase leader ⊆ ((cluster.node leader).peers.filter fun peer =>
        decide ((cluster.node leader).matchIndex peer ≥ older.length)).toFinset := by
      intro id listed
      obtain ⟨notLeader, member⟩ := Finset.mem_erase.mp listed
      rw [List.mem_toFinset, List.mem_filter]
      refine ⟨known.peers spread.member member notLeader, decide_eq_true ?_⟩
      rw [(spread.holds id member notLeader).counted, last, List.length_append, List.length_singleton]
      omega
    have fewer := (Finset.card_le_card counted).trans (List.toFinset_card_le _)
    rw [Finset.card_erase_of_mem spread.member] at fewer
    have most := known.majority.2
    unfold RaftNode.matchCount
    rw [known.size spread.member]
    omega

/-- A first pass commits the last entry on the leader, a second one on all other members. -/
theorem Leading.commits (leading : Leading quorum leader base cluster) {older : List LogEntry} {entry : LogEntry}
    (last : base.log = older ++ [entry]) (current : entry.term = base.currentTerm) :
    Attains (QuorumStep quorum) cluster fun later => Underway quorum later ∧ ∀ id ∈ quorum,
      base.log <+: (later.node id).log ∧ (older.length : Int) ≤ (later.node id).commitIndex := by
  have length : base.log.length = older.length + 1 := by
    rw [last, List.length_append, List.length_singleton]
  obtain ⟨past, run⟩ := leading.reached
  have sound := node_sound (Cluster.ReachesWhen.reaches run) (leading.toUnderway.mem leading.member)
  apply (leading.spreads (by omega) sound.commit).trans
  intro between first
  apply (first.toLeading.spreads (by omega) (first.commits last current)).trans
  intro later second
  refine Attains.here ⟨second.toUnderway, fun id member => ?_⟩
  by_cases isLeader : id = leader
  · subst isLeader
    rw [second.log]
    exact ⟨List.prefix_refl _, second.commits last current⟩
  · have holds := second.holds id member isLeader
    exact ⟨holds.front, holds.told⟩

end Spreading

section Runs

variable {past : List Cluster} {cluster : Cluster} {quorum : Finset Int} {id : Int}

theorem calls_inOrder (run : Cluster.Reaches past cluster) (member : id ∈ cluster.members)
    (calling : (cluster.node id).onCommit = true) : (cluster.node id).InOrder := by
  induction run with
  | start fresh =>
    obtain ⟨peers, onCommit, shape, -⟩ := fresh.2.2.2 id member
    rw [shape] at calling ⊢
    exact ⟨calling, nofun, rfl⟩
  | next before step ih =>
    have effect := Cluster.step_effect step
    have inside := effect.members ▸ member
    have same := (effect.move id).onCommit
    have inOrder := ih inside (same.symm.trans calling)
    rcases Cluster.step_act step id with still | ⟨moved, acted⟩
    · rw [still]
      exact inOrder
    · exact inOrder.step (RaftNode.act_sound (node_sound before inside) acted).2 same

theorem committed_called (run : CarefullyReaches past cluster) (member : id ∈ cluster.members)
    (calling : (cluster.node id).onCommit = true) {index : Nat} {entry : LogEntry} (positive : 0 < index)
    (found : (cluster.node id).log[index]? = some entry) (committed : (index : Int) ≤ (cluster.node id).commitIndex) :
    (entry.command, (index : Int)) ∈ (cluster.node id).commits := by
  have reached := Cluster.ReachesWhen.reaches run
  have inOrder := calls_inOrder reached member calling
  have applied := (node_sound reached member).applied
  obtain ⟨k, same, covered⟩ := (commitInv run).nodes id member
  have decided := covered.decided (show index ≤ k by omega) found
  have below : index ≤ (cluster.node id).commits.length := by
    have count := inOrder.count
    omega
  have only : ∀ call ∈ (cluster.node id).commits, call.2 = index → call.1 = entry.command := by
    intro call made named
    have other := (commitInv run).calls id member call made
    rw [named] at other
    exact Decided.unique run other decided
  obtain ⟨early, late, split⟩ := placed_call inOrder.numbered positive below only
  rw [split]
  exact List.mem_append_right _ List.mem_cons_self

theorem Elected.commits {leader : Int} {log : List LogEntry} (elected : Elected quorum leader log cluster) (command : Bytes)
    (fits : 57 + entriesSize log + command.length ≤ Rpc.maxMessageSize) :
    Attains (QuorumStep quorum) cluster fun later => Underway quorum later ∧ ∀ id ∈ quorum,
      log ++ [⟨(cluster.node leader).currentTerm, log.length, command⟩] <+: (later.node id).log ∧
        (log.length : Int) ≤ (later.node id).commitIndex := by
  obtain rfl := elected.log
  have known := elected.toUnderway
  have shape := @RaftNode.propose_leader (cluster.node leader) command elected.leads
  have step : QuorumStep quorum cluster (.propose leader command) (cluster.set leader ((cluster.node leader).propose command).1) :=
    ⟨if_pos (known.mem elected.member), ⟨nofun, nofun⟩, elected.member⟩
  have puts : Puts cluster (cluster.set leader ((cluster.node leader).propose command).1) leader
      ((cluster.node leader).propose command).1 [] := ⟨rfl, rfl, nofun⟩
  have leading : Leading quorum leader ((cluster.node leader).propose command).1
      (cluster.set leader ((cluster.node leader).propose command).1) := by
    refine ⟨known.after step puts ?_, elected.member, ?_, ?_, ?_, ?_, ?_⟩
    · rw [shape]
      exact known.running leader elected.member
    · rw [puts.here, shape]
      exact elected.leads
    · rw [puts.here]
    · rw [puts.here]
    · apply @Puts.all _ _ _ _ _ _ puts (fun _ node => node.currentTerm ≤ ((cluster.node leader).propose command).1.currentTerm)
      · rw [shape]
        exact elected.level
      · exact Int.le_refl _
    · rw [shape]
      change 41 + entriesSize ((cluster.node leader).log ++ [_]) ≤ _
      rw [entriesSize_append]
      change 41 + (_ + (16 + command.length)) ≤ _
      omega
  apply Attains.after step
  rw [shape] at leading ⊢
  exact leading.commits rfl rfl

theorem led_past {older : List Cluster} {earlier : Cluster} {leader : Int} (shorter : CarefullyReaches older earlier)
    (run : CarefullyReaches past cluster) (within : earlier :: older <:+ cluster :: past) (member : id ∈ earlier.members)
    (leaderMember : leader ∈ cluster.members) (leads : (cluster.node leader).state = .leader)
    (level : (earlier.node id).currentTerm ≤ (cluster.node leader).currentTerm) :
    (earlier.node id).commitIndex < (cluster.node leader).log.length := by
  obtain ⟨k, index, covered⟩ := (commitInv shorter).nodes id member
  have inside := commitIndex_lt shorter member
  have front := (covered.led run within leaderMember leads level).length_le
  rw [List.length_take] at front
  omega

/-- From any state of a careful execution a majority whose nodes run, with room for one more term and for their
logs with the command in a message, can commit the command and apply it on all its members. No other node has
to act for it, none is started again, and no message is too long. -/
theorem majority_commits (run : CarefullyReaches past cluster) (majority : Majority cluster.members quorum)
    (several : 2 ≤ cluster.members.length) (running : ∀ id ∈ quorum, (cluster.node id).running = true)
    (room : ∀ id ∈ quorum, (cluster.node id).currentTerm < int32Max) (command : Bytes)
    (fits : ∀ id ∈ quorum, 57 + entriesSize (cluster.node id).log + command.length ≤ Rpc.maxMessageSize) :
    ∃ (left : List Cluster) (later : Cluster) (index : Nat), Steps (QuorumStep quorum) cluster left later ∧
      ∀ id ∈ quorum, (cluster.node id).commitIndex < index ∧ (index : Int) ≤ (later.node id).commitIndex ∧
        (∃ entry, (later.node id).log[index]? = some entry ∧ entry.command = command) ∧
        ((later.node id).onCommit = true → (command, (index : Int)) ∈ (later.node id).commits) := by
  obtain ⟨early, between, election, leader, elected⟩ := elects ⟨⟨past, run⟩, majority, several, running⟩ room
    (fun id member => le_trans (by omega) (fits id member))
  obtain ⟨late, later, spreading, underway, done⟩ := elected.commits command (fits leader elected.member)
  rw [← elected.log] at done
  have led := run.steps (election.mono fun _ action _ step => ⟨action, step.careful⟩)
  have reached := led.steps (spreading.mono fun _ action _ step => ⟨action, step.careful⟩)
  have within : cluster :: past <:+ between :: (early ++ past) := by
    obtain ⟨rest, shape⟩ := election.starts
    exact ⟨rest, by rw [← List.singleton_append, ← List.append_assoc, shape]; rfl⟩
  have level : ∀ id ∈ quorum, (cluster.node id).currentTerm ≤ (between.node leader).currentTerm := by
    intro id member
    apply le_trans _ (elected.level id member)
    rcases List.mem_cons.mp (within.subset List.mem_cons_self) with rfl | seen
    · exact le_refl _
    · exact (membership (Cluster.ReachesWhen.reaches led).loosely).terms cluster seen id
  refine ⟨late ++ early, later, (between.node leader).log.length, election.trans spreading, fun id member => ?_⟩
  obtain ⟨front, committed⟩ := done id member
  have found := getElem?_mono front (@List.getElem?_concat_length _ (between.node leader).log _)
  have positive := log_pos (Cluster.ReachesWhen.reaches led) (elected.toUnderway.mem elected.member)
  refine ⟨?_, committed, ⟨_, found, rfl⟩, fun calling => ?_⟩
  · exact led_past run led within (majority.mem member) (elected.toUnderway.mem elected.member) elected.leads (level id member)
  · exact committed_called reached (underway.mem member) calling positive found committed

end Runs

/-- Node 3 led, and has stopped with a command of its own. The other two go on without it. -/
theorem majority_commits_trio : ∃ past cluster, CarefullyReaches past cluster ∧ (cluster.node 3).running = false ∧
    (cluster.node 3).state = .leader ∧ ∃ (left : List Cluster) (later : Cluster) (index : Nat),
      Steps (QuorumStep {1, 2}) cluster left later ∧ ∀ id ∈ ({1, 2} : Finset Int),
        (cluster.node id).commitIndex < index ∧ (index : Int) ≤ (later.node id).commitIndex ∧
          (∃ entry, (later.node id).log[index]? = some entry ∧ entry.command = [0x62]) ∧
          ((later.node id).onCommit = true → ([0x62], (index : Int)) ∈ (later.node id).commits) := by
  have stopped : ∃ visited ∈ replay (Cluster.actWhen Careful) Cluster.trio
      [.start 1, .start 2, .start 3, .startElection 3, .deliver 0, .deliver 1, .propose 3 [0x61], .stop 3],
      visited.2.members = [1, 2, 3] ∧ (visited.2.node 3).running = false ∧ (visited.2.node 3).state = .leader ∧
        ∀ id ∈ ({1, 2} : Finset Int), (visited.2.node id).running = true ∧ (visited.2.node id).currentTerm < int32Max ∧
          57 + entriesSize (visited.2.node id).log + 1 ≤ Rpc.maxMessageSize := by
    decide +kernel
  obtain ⟨visited, played, members, down, led, others⟩ := stopped
  have run := Cluster.trio_replay played
  have majority : Majority visited.2.members {1, 2} := by
    rw [members]
    exact ⟨by decide, by decide⟩
  have several : 2 ≤ visited.2.members.length := by
    rw [members]
    decide
  exact ⟨_, _, run, down, led, majority_commits run majority several (fun id member => (others id member).1)
    (fun id member => (others id member).2.1) [0x62] (fun id member => (others id member).2.2)⟩

end QuorumDB.Raft
