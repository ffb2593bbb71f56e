import QuorumDB.Raft.Replication

/-!
One leader and one follower, with nothing in between: a round carries one request over
and its reply back. Each refusal moves the leader one entry back, and the sentinel ends it.
-/

namespace QuorumDB.Raft
open Execution TermLog
open RaftNode (placeEntries)

namespace RaftNode

/-- SendHeartbeats for `peer`, HandleAppendEntries there, and HandleAppendEntriesReply back on the leader. -/
def round (peer : Int) (leader follower : RaftNode) : Option (RaftNode × RaftNode × Bool) := do
  let (_, args) ← leader.heartbeatFor peer
  let (answered, reply) ← follower.handleAppendEntries leader.currentTerm leader.nodeId args
  let informed ← leader.handleAppendEntriesReply peer reply (args.prevLogIndex + args.entries.length)
  some (informed, answered, decide (reply.payload = yes))

/-- Rounds until the first success, so many at most. -/
def catchUp (peer : Int) : Nat → RaftNode → RaftNode → Option (RaftNode × RaftNode)
  | 0, _, _ => none
  | rounds + 1, leader, follower => do
      let (informed, answered, success) ← round peer leader follower
      if success then some (informed, answered) else catchUp peer rounds informed answered

/-- Wherever the entry before a stretch of the list is matched, the loop leaves the whole list. -/
def Repairs (list log : List LogEntry) : Prop :=
  ∀ (pre rest : List LogEntry) (prev found : LogEntry), pre ++ prev :: rest = list → log[pre.length]? = some found →
    found.term = prev.term → list <+: placeEntries log pre.length rest

/-- What a leader and a follower keep between two rounds. -/
structure Pairing (peer : Int) (leader follower : RaftNode) : Prop where
  running : leader.running = true
  leads : leader.state = .leader
  leaderSound : leader.Sound
  followerSound : follower.Sound
  term : follower.currentTerm ≤ leader.currentTerm
  repairs : Repairs leader.log follower.log
  low : 1 ≤ leader.nextIndex peer
  high : leader.nextIndex peer ≤ leader.log.length
  matched : leader.matchIndex peer < leader.log.length

/-- The leader, whose log is as before, has counted all of it for the follower, and the follower has all of it. -/
structure CaughtUp (peer : Int) (before leader follower : RaftNode) : Prop where
  log : leader.log = before.log
  matched : leader.matchIndex peer = leader.log.length - 1
  next : leader.nextIndex peer = leader.log.length
  front : leader.log <+: follower.log

variable {peer : Int} {leader follower answered : RaftNode} {args : AppendEntriesArgs}

theorem heartbeatFor_spec (low : 1 ≤ leader.nextIndex peer) (high : leader.nextIndex peer ≤ leader.log.length) :
    ∃ args, leader.heartbeatFor peer = some (peer, args) ∧ args.prevLogIndex = leader.nextIndex peer - 1 ∧
      args.prevLogIndex + args.entries.length = leader.log.length - 1 := by
  obtain ⟨prev, found⟩ := @logAt_inside leader (leader.nextIndex peer - 1) (by omega) (by omega)
  refine ⟨⟨leader.nextIndex peer - 1, prev.term, leader.commitIndex, leader.log.drop (leader.nextIndex peer).toNat⟩, ?_, rfl, ?_⟩
  · unfold heartbeatFor
    rw [found]
  · simp only [List.length_drop]
    omega

theorem handleAppendEntriesReply_accepted (pairing : Pairing peer leader follower) (reply : RpcMessage) {sent : Int}
    (level : reply.term ≤ leader.currentTerm) (typed : reply.type = .appendEntriesReply) (accepted : reply.payload = yes)
    (last : sent = leader.log.length - 1) (front : leader.log <+: answered.log) :
    ∃ later, leader.handleAppendEntriesReply peer reply sent = some later ∧ CaughtUp peer leader later answered := by
  obtain ⟨later, ran, -⟩ := handleAppendEntriesReply_sound pairing.leaderSound peer sent reply
  have inside := pairing.matched
  refine ⟨later, ran, ?_⟩
  unfold handleAppendEntriesReply at ran
  have busy : ¬ (leader.running = false ∨ leader.state ≠ .leader) := by
    rw [pairing.running, pairing.leads]
    decide
  rw [if_neg busy, if_neg (by omega), if_pos typed, if_pos accepted] at ran
  obtain ⟨next, matched, log⟩ := advance_indexes ran
  have raised : (leader.acknowledge peer sent).matchIndex peer = max (leader.matchIndex peer) sent := Function.update_self ..
  have after : (leader.acknowledge peer sent).nextIndex peer = max (leader.matchIndex peer) sent + 1 := Function.update_self ..
  have same : later.log = leader.log := log
  refine ⟨same, ?_, ?_, ?_⟩
  · rw [matched, raised, same]
    omega
  · rw [next, after, same]
    omega
  · rw [same]
    exact front

theorem handleAppendEntriesReply_refused (pairing : Pairing peer leader follower) {reply : RpcMessage} (sent : Int)
    (level : reply.term ≤ leader.currentTerm) (typed : reply.type = .appendEntriesReply) (refused : reply.payload ≠ yes) :
    leader.handleAppendEntriesReply peer reply sent = some (leader.setNextIndex peer (max 1 (leader.nextIndex peer - 1))) := by
  unfold handleAppendEntriesReply
  have busy : ¬ (leader.running = false ∨ leader.state ≠ .leader) := by
    rw [pairing.running, pairing.leads]
    decide
  rw [if_neg busy, if_neg (by omega), if_pos typed, if_neg refused]

theorem handleAppendEntries_unmatched {node later : RaftNode} {term leaderId : Int} {reply : RpcMessage}
    (ran : node.handleAppendEntries term leaderId args = some (later, reply)) (fresh : node.currentTerm ≤ term)
    (refused : reply.payload ≠ yes) {found : LogEntry} (located : node.logAt args.prevLogIndex = some found) :
    found.term ≠ args.prevLogTerm := by
  intro matching
  have inside := lt_of_getElem? (logAt_some located).2
  have low := (logAt_some located).1
  unfold handleAppendEntries at ran
  simp only [ge_iff_le, fresh, ↓reduceIte, located, matching] at ran
  rw [if_pos (by omega)] at ran
  split at ran
  · cases ran
  · obtain ⟨-, rfl⟩ := Prod.mk.inj (Option.some.inj ran)
    exact refused rfl

theorem Sound.first {node : RaftNode} (sound : node.Sound) : node.log[0]? = some sentinel := by
  rw [← List.head?_eq_getElem?]
  exact sound.starts

theorem round_spec (pairing : Pairing peer leader follower) :
    ∃ informed answered success, round peer leader follower = some (informed, answered, success) ∧
      (success = true → CaughtUp peer leader informed answered) ∧
      (success = false → Pairing peer informed answered ∧ informed.log = leader.log ∧
        1 < leader.nextIndex peer ∧ informed.nextIndex peer = leader.nextIndex peer - 1) := by
  obtain ⟨args, request, index, last⟩ := heartbeatFor_spec pairing.low pairing.high
  obtain ⟨-, pre, prev, whole, place, level⟩ := heartbeatFor_served request
  obtain ⟨answered, reply, ran, sound, -⟩ := @handleAppendEntries_sound follower pairing.followerSound
    leader.currentTerm leader.nodeId args fun _ => by omega
  have ended : ∀ {informed : RaftNode},
      leader.handleAppendEntriesReply peer reply (args.prevLogIndex + args.entries.length) = some informed →
      round peer leader follower = some (informed, answered, decide (reply.payload = yes)) := fun replied => by
    simp only [round, request, ran, replied, Option.bind_eq_bind, Option.bind_some]
  have fresh := pairing.term
  rcases handleAppendEntries_cases ran with ⟨stale, -⟩ | ⟨-, rfl, rfl⟩ | ⟨-, rfl, ⟨found, located, matching⟩, accepted⟩
  · omega
  · have refused : (((follower.seeLeader leader.currentTerm leader.nodeId).appendEntriesReply false).payload) ≠ yes := by
      change no ≠ yes
      decide
    obtain ⟨log, -⟩ := seeLeader_fields follower leader.currentTerm leader.nodeId
    have term : (follower.seeLeader leader.currentTerm leader.nodeId).currentTerm = leader.currentTerm := by
      rw [seeLeader_eq _ fresh]
    refine ⟨_, _, _, ended (handleAppendEntriesReply_refused pairing _ term.le rfl refused), fun success => ?_, fun _ => ?_⟩
    · exact absurd (of_decide_eq_true success) refused
    · have further : 1 < leader.nextIndex peer := by
        by_contra least
        -- the entry before the first is the sentinel on both sides
        have first : pre = [] := List.eq_nil_of_length_eq_zero (by omega)
        subst first
        have mine := pairing.leaderSound.first
        rw [← whole] at mine
        obtain rfl := Option.some.inj mine
        have located : follower.logAt args.prevLogIndex = some sentinel := by
          rw [place, logAt, if_pos (Int.natCast_nonneg _)]
          exact pairing.followerSound.first
        exact handleAppendEntries_unmatched ran fresh refused located level.symm
      have next : (leader.setNextIndex peer (max 1 (leader.nextIndex peer - 1))).nextIndex peer = leader.nextIndex peer - 1 := by
        rw [max_eq_right (by omega)]
        exact Function.update_self ..
      have high := pairing.high
      refine ⟨⟨pairing.running, pairing.leads, ⟨pairing.leaderSound.starts, pairing.leaderSound.commit,
        pairing.leaderSound.applied⟩, sound, term.le, ?_, by omega, ?_, pairing.matched⟩, rfl, further, next⟩
      · rw [log]
        exact pairing.repairs
      · rw [next]
        change leader.nextIndex peer - 1 ≤ leader.log.length
        omega
  · obtain ⟨log, -⟩ := seeLeader_fields follower leader.currentTerm leader.nodeId
    obtain ⟨-, -, term, -⟩ := acceptEntries_ballot accepted
    rw [seeLeader_eq _ fresh] at term
    have front : leader.log <+: answered.log := by
      have here := (logAt_some located).2
      rw [acceptEntries_log accepted, log]
      rw [place, Int.toNat_natCast] at here ⊢
      exact pairing.repairs pre args.entries prev found whole here (matching.trans level)
    obtain ⟨informed, replied, caught⟩ := handleAppendEntriesReply_accepted pairing (answered.appendEntriesReply true)
      term.le rfl rfl last front
    exact ⟨informed, answered, _, ended replied, fun _ => caught, fun failed => absurd rfl (of_decide_eq_false failed)⟩

/-- As many rounds as the next index says are enough. -/
theorem catchUp_spec {rounds : Nat} (pairing : Pairing peer leader follower) (enough : leader.nextIndex peer ≤ rounds) :
    ∃ informed answered, catchUp peer rounds leader follower = some (informed, answered) ∧
      CaughtUp peer leader informed answered := by
  induction rounds generalizing leader follower with
  | zero =>
    have low := pairing.low
    omega
  | succ rounds ih =>
    obtain ⟨informed, answered, success, ran, done, again⟩ := round_spec pairing
    cases success with
    | true =>
      refine ⟨informed, answered, ?_, done rfl⟩
      simp only [catchUp, ran, Option.bind_eq_bind, Option.bind_some, ↓reduceIte]
    | false =>
      obtain ⟨still, log, -, next⟩ := again rfl
      obtain ⟨later, last, rest, caught⟩ := ih still (by omega)
      refine ⟨later, last, ?_, caught.log.trans log, caught.matched, caught.next, caught.front⟩
      simp only [catchUp, ran, Option.bind_eq_bind, Option.bind_some, Bool.false_eq_true, ↓reduceIte]
      exact rest

end RaftNode

section Runs

variable {past : List Cluster} {cluster : Cluster}

theorem pairing_reached (run : Cluster.Reaches past cluster) {id peer : Int} (member : id ∈ cluster.members)
    (other : peer ∈ cluster.members) (running : (cluster.node id).running = true) (leads : (cluster.node id).state = .leader)
    (term : (cluster.node peer).currentTerm ≤ (cluster.node id).currentTerm) (low : 1 ≤ (cluster.node id).nextIndex peer)
    (high : (cluster.node id).nextIndex peer ≤ (cluster.node id).log.length)
    (matched : (cluster.node id).matchIndex peer < (cluster.node id).log.length) :
    RaftNode.Pairing peer (cluster.node id) (cluster.node peer) := by
  refine ⟨running, leads, node_sound run member, node_sound run other, term, ?_, low, high, matched⟩
  intro pre rest prev found whole located matching
  have listed := termLog_leader run member leads
  rw [← whole] at listed
  have stretch : pre ++ prev :: rest <+: termLog (cluster :: past) (cluster.node id).currentTerm := by rw [listed]
  have here : (cluster.node peer).logAt pre.length = some found := by
    rw [RaftNode.logAt, if_pos (Int.natCast_nonneg _), Int.toNat_natCast]
    exact located
  have front := @accepted_front _ _ run _ _ other ⟨pre.length, prev.term, 0, rest⟩ pre _ prev stretch rfl rfl
    ⟨found, here, matching⟩ rfl
  rw [Int.toNat_natCast] at front
  rw [← whole]
  exact front

/-- Catch-up ends: within as many rounds as the next index says, the follower has the whole log. -/
theorem catchUp_ends (run : Cluster.Reaches past cluster) {id peer : Int} (member : id ∈ cluster.members)
    (other : peer ∈ cluster.members) (running : (cluster.node id).running = true) (leads : (cluster.node id).state = .leader)
    (term : (cluster.node peer).currentTerm ≤ (cluster.node id).currentTerm) (low : 1 ≤ (cluster.node id).nextIndex peer)
    (high : (cluster.node id).nextIndex peer ≤ (cluster.node id).log.length)
    (matched : (cluster.node id).matchIndex peer < (cluster.node id).log.length) :
    ∃ leader follower, RaftNode.catchUp peer ((cluster.node id).nextIndex peer).toNat (cluster.node id) (cluster.node peer) =
        some (leader, follower) ∧ RaftNode.CaughtUp peer (cluster.node id) leader follower :=
  RaftNode.catchUp_spec (pairing_reached run member other running leads term low high matched) (Int.self_le_toNat _)

end Runs

theorem catchUp_ends_trio : ∃ past cluster leader follower, Cluster.Reaches past cluster ∧
    (cluster.node 1).nextIndex 2 = 3 ∧ (cluster.node 2).log.length = 1 ∧
    RaftNode.catchUp 2 3 (cluster.node 1) (cluster.node 2) = some (leader, follower) ∧
      RaftNode.CaughtUp 2 (cluster.node 1) leader follower := by
  have elected : ∃ visited ∈ replay (Cluster.actWhen Cluster.NoDuplicate) Cluster.trio
      [.start 1, .start 2, .start 3, .startElection 1, .deliver 0, .deliver 1, .propose 1 [0x61], .propose 1 [0x62],
        .startElection 3, .startElection 3, .deliver 3, .startElection 1, .deliver 5, .deliver 6],
      1 ∈ visited.2.members ∧ 2 ∈ visited.2.members ∧ (visited.2.node 1).running = true ∧
        (visited.2.node 1).state = .leader ∧ (visited.2.node 2).currentTerm ≤ (visited.2.node 1).currentTerm ∧
        (visited.2.node 1).nextIndex 2 = 3 ∧ (visited.2.node 1).log.length = 3 ∧
        (visited.2.node 1).matchIndex 2 = 0 ∧ (visited.2.node 2).log.length = 1 := by
    decide +kernel
  obtain ⟨visited, played, member, other, running, leads, term, next, length, matched, short⟩ := elected
  have run := Cluster.ReachesWhen.reaches (Cluster.trio_replay played)
  obtain ⟨leader, follower, ended, caught⟩ :=
    catchUp_ends run member other running leads term (by rw [next]; decide) (by omega) (by omega)
  rw [next] at ended
  exact ⟨_, _, leader, follower, run, next, short, ended, caught⟩

end QuorumDB.Raft
