import QuorumDB.Raft.NodeRun

/-!
The requests of a leader on the wire. Everything a node holds fits the fields of the
payload, and a request arrives as it was built exactly when its frame keeps to the
receiver's size limit.
-/

namespace QuorumDB.Raft
open Execution NetworkOrder

namespace RaftNode

variable {node later : RaftNode}

structure Fits (node : RaftNode) : Prop where
  nodeId : Signed 32 node.nodeId
  currentTerm : Signed 32 node.currentTerm
  commitIndex : Signed 64 node.commitIndex
  log : ∀ entry ∈ node.log, entry.Typed

theorem Fits.same (fits : node.Fits) (nodeId : later.nodeId = node.nodeId) (currentTerm : later.currentTerm = node.currentTerm)
    (commitIndex : later.commitIndex = node.commitIndex) (log : later.log = node.log) : later.Fits :=
  ⟨nodeId ▸ fits.nodeId, currentTerm ▸ fits.currentTerm, commitIndex ▸ fits.commitIndex, log ▸ fits.log⟩

theorem Fits.stepDown (fits : node.Fits) {term : Int} (typed : Signed 32 term) : (node.stepDown term).Fits :=
  ⟨fits.nodeId, typed, fits.commitIndex, fits.log⟩

theorem acceptEntries_fits (fits : node.Fits) (sound : node.Sound) {args : AppendEntriesArgs} (typed : args.Typed)
    (inside : args.prevLogIndex < node.log.length) (low : 0 ≤ args.prevLogIndex) (ran : node.acceptEntries args = some later) :
    later.Fits := by
  have members := (@placeEntries_shape node.log args.entries args.prevLogIndex.toNat (by omega)).2.2
  have log : ∀ entry ∈ (node.repairLog args).log, entry.Typed := fun entry inside =>
    (members entry inside).elim (fits.log entry) (typed.entries entry)
  rcases acceptEntries_cases ran with rfl | ⟨lastApplied, commits, fresh, rfl, -⟩
  · exact ⟨fits.nodeId, fits.currentTerm, fits.commitIndex, log⟩
  · have high := typed.leaderCommit.2
    have nonneg := sound.commit
    refine ⟨fits.nodeId, fits.currentTerm, ?_, log⟩
    change Signed 64 (min args.leaderCommit (args.prevLogIndex + args.entries.length))
    unfold Signed at high ⊢
    omega

theorem commitScan_fits (fits : node.Fits) {rounds : Nat} (short : later.log.length < 2 ^ 63)
    (ran : node.commitScan rounds = some later) : later.Fits := by
  rcases commitScan_cases ran with rfl | ⟨n, entry, lastApplied, commits, -, found, -, -, rfl, -⟩
  · exact fits
  · refine ⟨fits.nodeId, fits.currentTerm, ?_, fits.log⟩
    unfold logAt at found
    split_ifs at found with low
    have inside := TermLog.lt_of_getElem? found
    change node.log.length < 2 ^ 63 at short
    change Signed 64 (n : Int)
    unfold Signed
    omega

theorem act_fits (fits : node.Fits) (sound : node.Sound) {action : NodeAction} (step : Step node action later) :
    later.Fits := by
  obtain ⟨typed, moved, short⟩ := step
  have raised : node.currentTerm < int32Max → Signed 32 (node.currentTerm + 1) := fun below => by
    have low := fits.currentTerm.1
    unfold int32Max at below
    unfold Signed at low ⊢
    omega
  cases act_turn moved with
  | same => exact fits
  | start => exact fits.same rfl rfl rfl rfl
  | stop => exact fits.same rfl rfl rfl rfl
  | setOnCommitCallback => exact fits.same rfl rfl rfl rfl
  | campaign runs free below => exact ⟨fits.nodeId, raised below, fits.commitIndex, fits.log⟩
  | winAlone runs free below => exact ⟨fits.nodeId, raised below, fits.commitIndex, fits.log⟩
  | @propose command leads =>
    refine ⟨fits.nodeId, fits.currentTerm, fits.commitIndex, fun entry inside => ?_⟩
    rcases List.mem_append.mp inside with old | new
    · exact fits.log entry old
    · rw [List.mem_singleton.mp new]
      refine ⟨fits.currentTerm, ?_⟩
      rw [List.length_append, List.length_singleton] at short
      change Signed 64 (node.log.length : Int)
      unfold Signed
      omega
  | vote => exact ⟨fits.nodeId, typed.1, fits.commitIndex, fits.log⟩
  | follow fresh =>
    rw [seeLeader_eq _ fresh]
    exact ⟨fits.nodeId, typed.1, fits.commitIndex, fits.log⟩
  | @accept term leader args later fresh matching accepted =>
    obtain ⟨termTyped, -, argsTyped⟩ := typed
    obtain ⟨log, commitIndex, lastApplied, -⟩ := seeLeader_fields node term leader
    have seen : (node.seeLeader term leader).Fits := by
      rw [seeLeader_eq leader fresh]
      exact ⟨fits.nodeId, termTyped, fits.commitIndex, fits.log⟩
    have still : (node.seeLeader term leader).Sound :=
      ⟨log ▸ sound.starts, commitIndex ▸ sound.commit, commitIndex ▸ lastApplied ▸ sound.applied⟩
    obtain ⟨prev, found, -⟩ := matching
    unfold logAt at found
    split_ifs at found with low
    have inside := TermLog.lt_of_getElem? found
    exact acceptEntries_fits seen still argsTyped (by rw [log]; omega) low accepted
  | stepDown carried => exact fits.stepDown (typed.term carried)
  | count => exact fits.same rfl rfl rfl rfl
  | win => exact fits.same rfl rfl rfl rfl
  | back => exact fits.same rfl rfl rfl rfl
  | @acknowledge peer sent reply later leads advanced =>
    obtain ⟨log, term, nodeId, -, commitIndex, -⟩ := acknowledge_fields node peer sent
    exact commitScan_fits (fits.same nodeId term commitIndex log) short advanced

theorem fits {past : List RaftNode} (run : Reaches past node) : node.Fits ∧ node.log.length < 2 ^ 63 := by
  refine @Run.invariant _ _ Initial Step (fun _ state => state.Fits ∧ state.log.length < 2 ^ 63) ?_ ?_ _ _ run
  · rintro fresh ⟨nodeId, peers, onCommit, typed, rfl⟩
    refine ⟨⟨typed, (by decide : Signed 32 0), (by decide : Signed 64 0), fun entry inside => ?_⟩, (by decide : 1 < 2 ^ 63)⟩
    rw [List.mem_singleton.mp inside]
    exact ⟨by decide, by decide⟩
  · intro past before action after reached known step
    exact ⟨act_fits known.1 (sound reached) step, step.2.2⟩

def appendEntriesRequest (node : RaftNode) (args : AppendEntriesArgs) : RpcMessage :=
  ⟨.appendEntries, node.currentTerm, node.nodeId, serializeAppendEntriesPayload args⟩

def Delivers (node : RaftNode) (args : AppendEntriesArgs) : Prop :=
  ∃ bytes message, Rpc.serializeRpcMessage (node.appendEntriesRequest args) = some bytes ∧
    Rpc.receiveMessage bytes = some message ∧ message.type = .appendEntries ∧ message.term = node.currentTerm ∧
    message.senderId = node.nodeId ∧ deserializeAppendEntriesPayload message.payload = some args

theorem Fits.request (fits : node.Fits) (short : node.log.length < 2 ^ 63) {peer : Int} {request : Int × AppendEntriesArgs}
    (built : node.heartbeatFor peer = some request) :
    request.1 = peer ∧ request.2.Typed ∧ request.2.entries = node.log.drop (node.nextIndex peer).toNat := by
  unfold heartbeatFor at built
  match found : node.logAt (node.nextIndex peer - 1) with
  | none =>
    rw [found] at built
    cases built
  | some prev =>
    rw [found] at built
    obtain rfl := Option.some.inj built
    unfold logAt at found
    split_ifs at found with low
    have inside := TermLog.lt_of_getElem? found
    refine ⟨rfl, ⟨?_, (fits.log prev (List.mem_of_getElem? found)).term, fits.commitIndex, fun entry member => ?_⟩, rfl⟩
    · change Signed 64 (node.nextIndex peer - 1)
      unfold Signed
      omega
    · exact fits.log entry (List.mem_of_mem_drop member)

/-- Delivery of typed arguments is a matter of size. -/
theorem Fits.delivers_iff (fits : node.Fits) {args : AppendEntriesArgs} (typed : args.Typed) :
    node.Delivers args ↔ 41 + entriesSize args.entries ≤ Rpc.maxMessageSize := by
  have size : (node.appendEntriesRequest args).payload.length = 28 + entriesSize args.entries :=
    serializeAppendEntriesPayload_length args
  have limit : Rpc.maxMessageSize < 2 ^ 32 := by decide
  have frames : 41 + entriesSize args.entries < 2 ^ 32 → Rpc.serializeRpcMessage (node.appendEntriesRequest args) =
      some (Rpc.frame (node.appendEntriesRequest args)) := fun small => Rpc.serializeRpcMessage_eq (by omega)
  constructor
  · rintro ⟨bytes, message, sent, received, -, -, -, decoded⟩
    have read := deserializeAppendEntriesPayload_length decoded
    have short := (Rpc.receiveMessage_short received).1
    have small : 41 + entriesSize args.entries < 2 ^ 32 := by
      have room : Rpc.maxMessageSize + 4 < 2 ^ 32 := by decide
      omega
    obtain rfl := Option.some.inj ((frames small).symm.trans sent)
    have fitting := Rpc.frame_short (by omega) received
    omega
  · intro small
    have arrived := @Rpc.receiveMessage_frame (node.appendEntriesRequest args) ⟨fits.currentTerm, fits.nodeId⟩ (by omega)
    exact ⟨_, _, frames (by omega), arrived, rfl, rfl, rfl, deserializeAppendEntriesPayload_serialize typed (by omega)⟩

/-- A request a leader builds arrives as built exactly when the entries the peer lacks, 16 bytes
and a command each, leave room for the 41 bytes of its headers. -/
theorem request_deliverable {past : List RaftNode} (run : Reaches past node) {requests : List (Int × AppendEntriesArgs)}
    (built : node.sendHeartbeats = some requests) {peer : Int} {args : AppendEntriesArgs} (request : (peer, args) ∈ requests) :
    node.Delivers args ↔ 41 + entriesSize (node.log.drop (node.nextIndex peer).toNat) ≤ Rpc.maxMessageSize := by
  obtain ⟨known, short⟩ := fits run
  unfold sendHeartbeats at built
  split_ifs at built with idle
  · obtain rfl := Option.some.inj built
    cases request
  · obtain ⟨target, -, made⟩ := Cluster.mem_of_mapM built request
    obtain ⟨rfl, typed, entries⟩ := known.request short made
    rw [known.delivers_iff typed, entries]

/-- Node 1 wins the first election of a pair and takes a command. -/
def leaderWith (command : Bytes) : RaftNode :=
  (((((new 1 [2] true).start.becomeCandidate).addVote 2).becomeLeader).propose command).1

theorem leaderWith_reaches (command : Bytes) : ∃ past, Reaches past (leaderWith command) := by
  have fresh : Reaches [] (new 1 [2] true) := .start ⟨1, [2], true, by decide, rfl⟩
  have started : Step (new 1 [2] true) .start _ := ⟨trivial, rfl, by decide⟩
  have campaigns : Step (new 1 [2] true).start .startElection _ := ⟨trivial, rfl, by decide⟩
  have wins : Step (new 1 [2] true).start.becomeCandidate (.voteReply 1 2 ⟨.requestVoteReply, 1, 2, yes⟩)
      (((new 1 [2] true).start.becomeCandidate).addVote 2).becomeLeader :=
    ⟨⟨by decide, by decide, by decide, by decide⟩, rfl, by decide⟩
  have takes : Step (((new 1 [2] true).start.becomeCandidate).addVote 2).becomeLeader (.propose command) _ :=
    ⟨trivial, rfl, (by decide : 2 < 2 ^ 63)⟩
  exact ⟨_, (((fresh.next started).next campaigns).next wins).next takes⟩

theorem request_deliverable_small : (leaderWith [7]).Delivers ⟨0, 0, 0, [⟨1, 1, [7]⟩]⟩ := by
  obtain ⟨past, run⟩ := leaderWith_reaches [7]
  exact (request_deliverable run rfl (List.mem_singleton.mpr rfl)).mpr (by decide)

/-- A command of 16 MiB is accepted and can never be delivered. -/
theorem request_deliverable_fails : ¬ ∀ past node requests peer args, Reaches past node →
    node.sendHeartbeats = some requests → (peer, args) ∈ requests → node.Delivers args := by
  intro claim
  obtain ⟨command, length⟩ : ∃ command : Bytes, command.length = 16777216 :=
    ⟨List.replicate 16777216 0, List.length_replicate⟩
  obtain ⟨past, run⟩ := leaderWith_reaches command
  have delivered := claim past (leaderWith command) [(2, ⟨0, 0, 0, [⟨1, 1, command⟩]⟩)] 2 ⟨0, 0, 0, [⟨1, 1, command⟩]⟩ run
    rfl (List.mem_singleton.mpr rfl)
  have typed : (⟨0, 0, 0, [⟨1, 1, command⟩]⟩ : AppendEntriesArgs).Typed :=
    ⟨(by decide : Signed 64 0), (by decide : Signed 32 0), (by decide : Signed 64 0), fun entry inside => by
      rw [List.mem_singleton.mp inside]
      exact ⟨(by decide : Signed 32 1), (by decide : Signed 64 1)⟩⟩
  have small := ((fits run).1.delivers_iff typed).mp delivered
  have part := entry_size_le (List.mem_singleton.mpr rfl : (⟨1, 1, command⟩ : LogEntry) ∈ [⟨1, 1, command⟩])
  change 16 + command.length ≤ entriesSize [⟨1, 1, command⟩] at part
  have limit : Rpc.maxMessageSize = 16777216 := rfl
  change 41 + entriesSize [⟨1, 1, command⟩] ≤ Rpc.maxMessageSize at small
  omega

end RaftNode

end QuorumDB.Raft
