import QuorumDB.Lib.TermLog
import QuorumDB.Raft.Handlers
import QuorumDB.Raft.Payload

/-!
Runs of a single node, whatever the network brings. Its log keeps its sentinel, and the
entries it applies are taken from inside the log, each index once and in order.
-/

namespace QuorumDB.Raft
open Execution NetworkOrder

inductive NodeAction where
  | start
  | stop
  | setOnCommitCallback (set : Bool)
  | startElection
  | propose (command : Bytes)
  | sendHeartbeats
  | requestVote (term candidate : Int)
  | appendEntries (term leader : Int) (args : AppendEntriesArgs)
  | voteReply (electionTerm peer : Int) (reply : RpcMessage)
  | appendReply (peer sentMatchIndex : Int) (reply : RpcMessage)

def NodeAction.Typed : NodeAction → Prop
  | .requestVote term candidate => Signed 32 term ∧ Signed 32 candidate
  | .appendEntries term leader args => Signed 32 term ∧ Signed 32 leader ∧ args.Typed
  | .voteReply electionTerm peer reply => Signed 32 electionTerm ∧ Signed 32 peer ∧ Rpc.Typed reply
  | .appendReply peer sentMatchIndex reply => Signed 32 peer ∧ Signed 64 sentMatchIndex ∧ Rpc.Typed reply
  | _ => True

def NodeAction.term : NodeAction → Option Int
  | .requestVote term _ => some term
  | .appendEntries term _ _ => some term
  | .voteReply _ _ reply => some reply.term
  | .appendReply _ _ reply => some reply.term
  | _ => none

theorem NodeAction.Typed.term {action : NodeAction} (typed : action.Typed) {term : Int} (carried : term ∈ action.term) :
    Signed 32 term := by
  cases action with
  | requestVote => exact Option.some.inj carried ▸ typed.1
  | appendEntries => exact Option.some.inj carried ▸ typed.1
  | voteReply => exact Option.some.inj carried ▸ typed.2.2.1
  | appendReply => exact Option.some.inj carried ▸ typed.2.2.1
  | _ => cases carried

namespace RaftNode

def act (node : RaftNode) : NodeAction → Option RaftNode
  | .start => some node.start
  | .stop => some node.stop
  | .setOnCommitCallback set => some { node with onCommit := set }
  | .startElection => node.startElection.map Prod.fst
  | .propose command => some (node.propose command).1
  | .sendHeartbeats => node.sendHeartbeats.map fun _ => node
  | .requestVote term candidate => some (node.handleRequestVote term candidate).1
  | .appendEntries term leader args => (node.handleAppendEntries term leader args).map Prod.fst
  | .voteReply electionTerm peer reply => some (node.handleVoteReply electionTerm peer reply)
  | .appendReply peer sentMatchIndex reply => node.handleAppendEntriesReply peer reply sentMatchIndex

def Initial (node : RaftNode) : Prop :=
  ∃ nodeId peers onCommit, Signed 32 nodeId ∧ node = new nodeId peers onCommit

/-- A vector never has 2^63 elements. -/
def Step (node : RaftNode) (action : NodeAction) (later : RaftNode) : Prop :=
  action.Typed ∧ node.act action = some later ∧ later.log.length < 2 ^ 63

abbrev Reaches : List RaftNode → RaftNode → Prop := Run Initial Step

section Turns

variable {node later : RaftNode} {action : NodeAction}

inductive Turn (node : RaftNode) : NodeAction → RaftNode → Prop where
  | same {action : NodeAction} : Turn node action node
  | start (rests : node.running = false) :
      Turn node .start { node with running := true, state := .follower, leaderId := -1 }
  | stop : Turn node .stop node.stop
  | setOnCommitCallback {set : Bool} : Turn node (.setOnCommitCallback set) { node with onCommit := set }
  | campaign (runs : node.running = true) (free : node.state ≠ .leader) (below : node.currentTerm < int32Max) :
      Turn node .startElection node.becomeCandidate
  | winAlone (runs : node.running = true) (free : node.state ≠ .leader) (below : node.currentTerm < int32Max) :
      Turn node .startElection node.becomeCandidate.becomeLeader
  | propose {command : Bytes} (leads : node.state = .leader) :
      Turn node (.propose command) { node with log := node.log ++ [⟨node.currentTerm, node.log.length, command⟩] }
  | vote {term candidate : Int} (fresh : node.currentTerm ≤ term) :
      Turn node (.requestVote term candidate) (node.voting term candidate)
  | follow {term leader : Int} {args : AppendEntriesArgs} (fresh : node.currentTerm ≤ term) :
      Turn node (.appendEntries term leader args) (node.seeLeader term leader)
  | accept {term leader : Int} {args : AppendEntriesArgs} {later : RaftNode} (fresh : node.currentTerm ≤ term)
      (matching : ∃ prev, node.logAt args.prevLogIndex = some prev ∧ prev.term = args.prevLogTerm)
      (ran : (node.seeLeader term leader).acceptEntries args = some later) :
      Turn node (.appendEntries term leader args) later
  | stepDown {action : NodeAction} {term : Int} (carried : term ∈ action.term) (above : node.currentTerm < term) :
      Turn node action (node.stepDown term)
  | count {electionTerm peer : Int} {reply : RpcMessage} (campaigning : node.state = .candidate) :
      Turn node (.voteReply electionTerm peer reply) (node.addVote peer)
  | win {electionTerm peer : Int} {reply : RpcMessage} (campaigning : node.state = .candidate) :
      Turn node (.voteReply electionTerm peer reply) (node.addVote peer).becomeLeader
  | back {peer sent : Int} {reply : RpcMessage} (leads : node.state = .leader) :
      Turn node (.appendReply peer sent reply) (node.setNextIndex peer (max 1 (node.nextIndex peer - 1)))
  | acknowledge {peer sent : Int} {reply : RpcMessage} {later : RaftNode} (leads : node.state = .leader)
      (ran : (node.acknowledge peer sent).advanceCommitIndexLocked = some later) :
      Turn node (.appendReply peer sent reply) later

theorem act_turn (moved : node.act action = some later) : node.Turn action later := by
  cases action with
  | start =>
    obtain rfl := Option.some.inj moved
    unfold start
    split_ifs with running
    · exact .same
    · exact .start (Bool.eq_false_iff.mpr running)
  | stop =>
    obtain rfl := Option.some.inj moved
    exact .stop
  | setOnCommitCallback set =>
    obtain rfl := Option.some.inj moved
    exact .setOnCommitCallback
  | startElection =>
    obtain ⟨⟨after, requests⟩, ran, rfl⟩ := Option.map_eq_some_iff.mp moved
    rcases startElection_cases ran with ⟨rfl, -⟩ | ⟨runs, free, below, ⟨-, rfl, -⟩ | ⟨rfl, -⟩⟩
    · exact .same
    · exact .winAlone runs free below
    · exact .campaign runs free below
  | propose command =>
    obtain rfl := Option.some.inj moved
    unfold propose
    split_ifs with follows
    · exact .same
    · exact .propose (not_not.mp follows)
  | sendHeartbeats =>
    obtain ⟨requests, -, rfl⟩ := Option.map_eq_some_iff.mp moved
    exact .same
  | requestVote term candidate =>
    obtain rfl := Option.some.inj moved
    rcases handleRequestVote_cases node term candidate with same | ⟨fresh, -, same⟩
    · rw [same]
      exact .same
    · rw [same]
      exact .vote fresh
  | appendEntries term leader args =>
    obtain ⟨⟨after, reply⟩, ran, rfl⟩ := Option.map_eq_some_iff.mp moved
    rcases handleAppendEntries_cases ran with ⟨-, rfl, -⟩ | ⟨fresh, rfl, -⟩ | ⟨fresh, -, matching, accepted⟩
    · exact .same
    · exact .follow fresh
    · exact .accept fresh matching accepted
  | voteReply electionTerm peer reply =>
    obtain rfl := Option.some.inj moved
    rcases handleVoteReply_cases node electionTerm peer reply with
      same | ⟨above, same⟩ | ⟨campaigning, -, -, -, ⟨-, same⟩ | same⟩
    · rw [same]
      exact .same
    · rw [same]
      exact .stepDown rfl above
    · rw [same]
      exact .win campaigning
    · rw [same]
      exact .count campaigning
  | appendReply peer sentMatchIndex reply =>
    rcases handleAppendEntriesReply_cases moved with rfl | ⟨above, rfl⟩ | ⟨leads, -, rfl | ⟨-, -, -, advanced⟩⟩
    · exact .same
    · exact .stepDown rfl above
    · exact .back leads
    · exact .acknowledge leads advanced

end Turns

structure Sound (node : RaftNode) : Prop where
  starts : node.log.head? = some sentinel
  commit : 0 ≤ node.commitIndex
  applied : node.commitIndex ≤ node.lastApplied

/-- The calls of the callback between two states: the next indices in turn, each with the
command the log has there. -/
def Calling (before after : RaftNode) (calls : List (Bytes × Int)) : Prop :=
  ∀ (position : Nat) (call : Bytes × Int), calls[position]? = some call → call.2 = before.lastApplied + 1 + position ∧
    ∃ entry, after.logAt call.2 = some entry ∧ entry.command = call.1

/-- Everything up to the commit index is applied, and the callback is called for what was not. -/
def Applies (before after : RaftNode) : Prop :=
  after.lastApplied = max before.lastApplied after.commitIndex ∧
    ∃ calls, after.commits = before.commits ++ calls ∧ before.Calling after calls ∧
      (before.onCommit = true → after.lastApplied = before.lastApplied + calls.length)

theorem Calling.nil {before after : RaftNode} : before.Calling after [] := fun position call found => by cases found

theorem Applies.none {before after : RaftNode} (applied : before.commitIndex ≤ before.lastApplied)
    (commitIndex : after.commitIndex = before.commitIndex) (commits : after.commits = before.commits)
    (lastApplied : after.lastApplied = before.lastApplied) : before.Applies after := by
  refine ⟨?_, [], ?_, Calling.nil, fun _ => ?_⟩
  · rw [lastApplied, commitIndex, max_eq_left applied]
  · rw [commits, List.append_nil]
  · rw [lastApplied, List.length_nil]
    exact (Int.add_zero _).symm

end RaftNode

open RaftNode (placeEntry placeEntries)

/-- A pass of the loop keeps the log or cuts it at the position and appends the entry. -/
theorem placeEntry_cases (log : List LogEntry) (index : Nat) (entry : LogEntry) :
    (index < log.length ∧ placeEntry log index entry = log) ∨ placeEntry log index entry = log.take index ++ [entry] := by
  unfold placeEntry
  cases found : log[index]? with
  | none =>
    have past := List.getElem?_eq_none_iff.mp found
    right
    rw [List.take_of_length_le past]
  | some old =>
    have inside := TermLog.lt_of_getElem? found
    by_cases same : old.term = entry.term
    · exact .inl ⟨inside, if_neg (not_not.mpr same)⟩
    · exact .inr (if_pos same)

theorem placeEntries_shape {log entries : List LogEntry} {position : Nat} (inside : position < log.length) :
    position + entries.length < (placeEntries log position entries).length ∧
      (placeEntries log position entries).take (position + 1) = log.take (position + 1) ∧
      ∀ entry ∈ placeEntries log position entries, entry ∈ log ∨ entry ∈ entries := by
  induction entries generalizing log position with
  | nil => exact ⟨inside, rfl, fun entry => .inl⟩
  | cons first rest ih =>
    have placed : position + 1 < (placeEntry log (position + 1) first).length ∧
        (placeEntry log (position + 1) first).take (position + 1) = log.take (position + 1) ∧
        ∀ entry ∈ placeEntry log (position + 1) first, entry ∈ log ∨ entry = first := by
      rcases placeEntry_cases log (position + 1) first with ⟨more, same⟩ | cut
      · rw [same]
        exact ⟨more, rfl, fun entry => .inl⟩
      · have size : (log.take (position + 1)).length = position + 1 := by
          rw [List.length_take]
          omega
        rw [cut, List.length_append, size, List.take_left' size]
        refine ⟨Nat.lt_succ_self _, rfl, fun entry member => ?_⟩
        rcases List.mem_append.mp member with old | new
        · exact .inl (List.mem_of_mem_take old)
        · exact .inr (List.mem_singleton.mp new)
    obtain ⟨more, kept, known⟩ := placed
    obtain ⟨long, same, members⟩ := ih more
    rw [placeEntries]
    refine ⟨?_, ?_, fun entry member => ?_⟩
    · rw [List.length_cons]
      omega
    · have shorter := congrArg (List.take (position + 1)) same
      rw [List.take_take, List.take_take, Nat.min_eq_left (by omega)] at shorter
      exact shorter.trans kept
    · rcases members entry member with old | new
      · exact (known entry old).imp_right fun (here : entry = first) => here ▸ List.mem_cons_self
      · exact .inr (List.mem_cons_of_mem _ new)

theorem head?_of_take {log other : List LogEntry} {count : Nat} (same : log.take (count + 1) = other.take (count + 1)) :
    log.head? = other.head? := by
  have left : (log.take (count + 1)).head? = log.head? := by rw [List.head?_take, if_neg (Nat.succ_ne_zero count)]
  rw [← left, same, List.head?_take, if_neg (Nat.succ_ne_zero count)]

namespace RaftNode

variable {node later : RaftNode} {rounds : Nat}

theorem logAt_inside {index : Int} (low : 0 ≤ index) (inside : index < node.log.length) :
    ∃ entry, node.logAt index = some entry := by
  have less : index.toNat < node.log.length := by omega
  exact ⟨node.log[index.toNat], by rw [logAt, if_pos low, List.getElem?_eq_getElem less]⟩

theorem applyRounds_spec (low : 0 ≤ node.lastApplied) (inside : node.lastApplied + rounds < node.log.length) :
    ∃ calls, applyRounds rounds node = some (node.withApplied (node.lastApplied + rounds) (node.commits ++ calls)) ∧
      node.Calling node calls ∧ calls.length = if node.onCommit then rounds else 0 := by
  induction rounds generalizing node with
  | zero =>
    refine ⟨[], ?_, Calling.nil, (ite_self 0).symm⟩
    rw [List.append_nil, Int.natCast_zero, Int.add_zero]
    rfl
  | succ rounds ih =>
    have shift : node.lastApplied + ((rounds + 1 : Nat) : Int) = node.lastApplied + 1 + rounds := by omega
    have more : 0 ≤ node.lastApplied + 1 := by omega
    have still : node.lastApplied + 1 + rounds < node.log.length := by omega
    unfold applyRounds
    by_cases called : node.onCommit = true
    · obtain ⟨entry, found⟩ := @logAt_inside node.advanceApplied (node.lastApplied + 1) more
        (by change node.lastApplied + 1 < node.log.length; omega)
      obtain ⟨calls, ran, calling, count⟩ := @ih (node.advanceApplied.callOnCommit entry) more still
      have here : node.advanceApplied.logAt node.advanceApplied.lastApplied = some entry := found
      refine ⟨(entry.command, node.lastApplied + 1) :: calls, ?_, fun position call at_position => ?_, ?_⟩
      · rw [if_pos called, here]
        simp only
        rw [ran, shift]
        change some (withApplied node _ ((node.commits ++ [_]) ++ calls)) = _
        rw [List.append_assoc]
        rfl
      · cases position with
        | zero =>
          cases Option.some.inj at_position
          exact ⟨(Int.add_zero _).symm, entry, found, rfl⟩
        | succ position =>
          obtain ⟨index, read⟩ := calling position call at_position
          refine ⟨?_, read⟩
          change call.2 = node.lastApplied + 1 + 1 + position at index
          omega
      · change calls.length = if node.onCommit then rounds else 0 at count
        rw [if_pos called] at count ⊢
        rw [List.length_cons, count]
    · obtain ⟨calls, ran, -, count⟩ := @ih node.advanceApplied more still
      change calls.length = if node.onCommit then rounds else 0 at count
      rw [if_neg called] at count
      obtain rfl := List.eq_nil_of_length_eq_zero count
      refine ⟨[], ?_, Calling.nil, by rw [if_neg called, List.length_nil]⟩
      rw [if_neg called, ran, shift]
      rfl

theorem applyCommittedEntriesLocked_spec (low : 0 ≤ node.lastApplied) (inside : node.commitIndex < node.log.length) :
    ∃ calls, node.applyCommittedEntriesLocked =
        some (node.withApplied (max node.lastApplied node.commitIndex) (node.commits ++ calls)) ∧
      node.Calling node calls ∧
      (node.onCommit = true → max node.lastApplied node.commitIndex = node.lastApplied + calls.length) := by
  by_cases behind : node.lastApplied ≤ node.commitIndex
  · have reach : node.lastApplied + ((node.commitIndex - node.lastApplied).toNat : Int) = node.commitIndex := by omega
    obtain ⟨calls, ran, calling, count⟩ := applyRounds_spec low (reach.trans_lt inside)
    rw [reach] at ran
    refine ⟨calls, by rw [max_eq_right behind]; exact ran, calling, fun on => ?_⟩
    rw [if_pos on] at count
    omega
  · have done : (node.commitIndex - node.lastApplied).toNat = 0 := by omega
    refine ⟨[], ?_, Calling.nil, fun _ => ?_⟩
    · rw [applyCommittedEntriesLocked, done, max_eq_left (by omega), List.append_nil]
      rfl
    · rw [max_eq_left (by omega), List.length_nil]
      exact (Int.add_zero _).symm

theorem acceptEntries_sound (sound : node.Sound) {args : AppendEntriesArgs} (low : 0 ≤ args.prevLogIndex)
    (inside : args.prevLogIndex < node.log.length) :
    ∃ later, node.acceptEntries args = some later ∧ later.Sound ∧ node.Applies later := by
  obtain ⟨long, same, -⟩ := @placeEntries_shape node.log args.entries args.prevLogIndex.toNat (by omega)
  have starts : (node.repairLog args).log.head? = some sentinel := (head?_of_take same).trans sound.starts
  have size : args.prevLogIndex + args.entries.length < (node.repairLog args).log.length := by
    change _ < ((placeEntries node.log args.prevLogIndex.toNat args.entries).length : Int)
    omega
  have positive := sound.commit
  have applied := sound.applied
  unfold acceptEntries
  by_cases fresh : args.leaderCommit > node.commitIndex
  · rw [if_pos fresh]
    generalize target : min args.leaderCommit (args.prevLogIndex + args.entries.length) = commitIndex
    have bounds : 0 ≤ commitIndex ∧ commitIndex ≤ args.prevLogIndex + args.entries.length := by omega
    obtain ⟨calls, ran, calling, count⟩ := @applyCommittedEntriesLocked_spec
      ((node.repairLog args).setCommitIndex commitIndex) (Int.le_trans positive applied) (by
        change commitIndex < ((node.repairLog args).log.length : Int)
        omega)
    exact ⟨_, ran, ⟨starts, bounds.1, le_max_right _ _⟩, rfl, calls, rfl, calling, count⟩
  · rw [if_neg fresh]
    exact ⟨_, rfl, ⟨starts, positive, applied⟩, Applies.none sound.applied rfl rfl rfl⟩

theorem seeLeader_fields (node : RaftNode) (term leader : Int) : (node.seeLeader term leader).log = node.log ∧
    (node.seeLeader term leader).commitIndex = node.commitIndex ∧
    (node.seeLeader term leader).lastApplied = node.lastApplied ∧
    (node.seeLeader term leader).commits = node.commits ∧ (node.seeLeader term leader).onCommit = node.onCommit := by
  unfold seeLeader
  by_cases later : term > node.currentTerm
  · rw [if_pos later]
    exact ⟨rfl, rfl, rfl, rfl, rfl⟩
  · rw [if_neg later]
    exact ⟨rfl, rfl, rfl, rfl, rfl⟩

theorem handleAppendEntries_sound (sound : node.Sound) {term leader : Int} {args : AppendEntriesArgs}
    (low : node.currentTerm ≤ term → 0 ≤ args.prevLogIndex) :
    ∃ later reply, node.handleAppendEntries term leader args = some (later, reply) ∧ later.Sound ∧
      node.Applies later := by
  obtain ⟨log, commitIndex, lastApplied, commits, onCommit⟩ := seeLeader_fields node term leader
  have seen : (node.seeLeader term leader).Sound := by
    refine ⟨?_, ?_, ?_⟩
    · rw [log]
      exact sound.starts
    · rw [commitIndex]
      exact sound.commit
    · rw [commitIndex, lastApplied]
      exact sound.applied
  have still : node.Applies (node.seeLeader term leader) := Applies.none sound.applied commitIndex commits lastApplied
  unfold handleAppendEntries
  by_cases stale : term ≥ node.currentTerm
  · rw [if_pos stale]
    by_cases short : args.prevLogIndex < node.log.length
    · obtain ⟨prev, found⟩ := logAt_inside (low stale) short
      simp only [if_pos short, found]
      by_cases matching : prev.term = args.prevLogTerm
      · obtain ⟨later, accepted, kept, all, calls, more, calling, count⟩ :=
          acceptEntries_sound seen (low stale) (log ▸ short)
        simp only [if_pos matching, accepted]
        refine ⟨later, _, rfl, kept, lastApplied ▸ all, calls, commits ▸ more, fun position call at_position => ?_, fun on => ?_⟩
        · have known := calling position call at_position
          rw [lastApplied] at known
          exact known
        · rw [← lastApplied]
          exact count (onCommit.trans on)
      · rw [if_neg matching]
        exact ⟨_, _, rfl, seen, still⟩
    · rw [if_neg short]
      exact ⟨_, _, rfl, seen, still⟩
  · rw [if_neg stale]
    exact ⟨_, _, rfl, sound, Applies.none sound.applied rfl rfl rfl⟩

theorem commitScan_sound (sound : node.Sound) (inside : rounds ≤ node.log.length) :
    ∃ later, node.commitScan rounds = some later ∧ later.Sound ∧ node.Applies later := by
  have positive := sound.commit
  have applied := sound.applied
  induction rounds with
  | zero => exact ⟨node, if_neg (by omega), sound, Applies.none sound.applied rfl rfl rfl⟩
  | succ n ih =>
    unfold commitScan
    by_cases above : (n : Int) > node.commitIndex
    · obtain ⟨entry, found⟩ := @logAt_inside node n (Int.natCast_nonneg n) (by omega)
      simp only [if_pos above, found]
      by_cases counted : entry.term = node.currentTerm ∧ node.matchCount n > node.clusterSize / 2
      · rw [if_pos counted]
        obtain ⟨calls, ran, calling, count⟩ := @applyCommittedEntriesLocked_spec (node.setCommitIndex n)
          (Int.le_trans positive applied) (by change (n : Int) < node.log.length; omega)
        exact ⟨_, ran, ⟨sound.starts, Int.natCast_nonneg n, le_max_right _ _⟩, rfl, calls, rfl, calling, count⟩
      · rw [if_neg counted]
        exact ih (by omega)
    · rw [if_neg above]
      exact ⟨node, rfl, sound, Applies.none sound.applied rfl rfl rfl⟩

theorem handleAppendEntriesReply_sound (sound : node.Sound) (peer sent : Int) (reply : RpcMessage) :
    ∃ later, node.handleAppendEntriesReply peer reply sent = some later ∧ later.Sound ∧ node.Applies later := by
  have same : node.Applies node := Applies.none sound.applied rfl rfl rfl
  unfold handleAppendEntriesReply
  split_ifs with idle above typed accepted
  · exact ⟨node, rfl, sound, same⟩
  · exact ⟨_, rfl, ⟨sound.starts, sound.commit, sound.applied⟩, Applies.none sound.applied rfl rfl rfl⟩
  · exact @commitScan_sound (node.acknowledge peer sent) node.log.length ⟨sound.starts, sound.commit, sound.applied⟩
      (Nat.le_refl _)
  · exact ⟨_, rfl, ⟨sound.starts, sound.commit, sound.applied⟩, Applies.none sound.applied rfl rfl rfl⟩
  · exact ⟨node, rfl, sound, same⟩

/-- The step lemma: a step that the language defines keeps a node sound, and its calls are those of
the entries applied. -/
theorem act_sound (sound : node.Sound) {action : NodeAction} (moved : node.act action = some later) :
    later.Sound ∧ node.Applies later := by
  have frame : ∀ {after : RaftNode}, after.log.head? = node.log.head? ∨ node.log <+: after.log →
      after.commitIndex = node.commitIndex → after.lastApplied = node.lastApplied → after.commits = node.commits →
      after.Sound ∧ node.Applies after := by
    intro after log commitIndex lastApplied commits
    refine ⟨⟨?_, commitIndex ▸ sound.commit, commitIndex ▸ lastApplied ▸ sound.applied⟩,
      Applies.none sound.applied commitIndex commits lastApplied⟩
    rcases log with same | ⟨rest, longer⟩
    · exact same.trans sound.starts
    · rw [← longer, List.head?_append, sound.starts, Option.some_or]
  cases action with
  | start =>
    obtain rfl := Option.some.inj moved
    unfold start
    split_ifs with running
    · exact ⟨sound, Applies.none sound.applied rfl rfl rfl⟩
    · exact frame (.inl rfl) rfl rfl rfl
  | stop =>
    obtain rfl := Option.some.inj moved
    exact frame (.inl rfl) rfl rfl rfl
  | setOnCommitCallback set =>
    obtain rfl := Option.some.inj moved
    exact frame (.inl rfl) rfl rfl rfl
  | startElection =>
    obtain ⟨⟨after, requests⟩, ran, rfl⟩ := Option.map_eq_some_iff.mp moved
    rcases startElection_cases ran with ⟨rfl, -⟩ | ⟨-, -, -, ⟨-, rfl, -⟩ | ⟨rfl, -⟩⟩
    · exact ⟨sound, Applies.none sound.applied rfl rfl rfl⟩
    · exact frame (.inl rfl) rfl rfl rfl
    · exact frame (.inl rfl) rfl rfl rfl
  | propose command =>
    obtain rfl := Option.some.inj moved
    unfold propose
    split_ifs with follows
    · exact ⟨sound, Applies.none sound.applied rfl rfl rfl⟩
    · exact frame (.inr (List.prefix_append _ _)) rfl rfl rfl
  | sendHeartbeats =>
    obtain ⟨requests, -, rfl⟩ := Option.map_eq_some_iff.mp moved
    exact ⟨sound, Applies.none sound.applied rfl rfl rfl⟩
  | requestVote term candidate =>
    obtain rfl := Option.some.inj moved
    rcases handleRequestVote_cases node term candidate with same | ⟨-, -, same⟩
    · rw [same]
      exact ⟨sound, Applies.none sound.applied rfl rfl rfl⟩
    · rw [same]
      exact frame (.inl rfl) rfl rfl rfl
  | appendEntries term leader args =>
    obtain ⟨⟨after, reply⟩, ran, rfl⟩ := Option.map_eq_some_iff.mp moved
    by_cases low : node.currentTerm ≤ term → 0 ≤ args.prevLogIndex
    · obtain ⟨reached, answered, same, kept, applied⟩ := @handleAppendEntries_sound node sound term leader args low
      obtain ⟨rfl, rfl⟩ := Prod.mk.inj (Option.some.inj (same.symm.trans ran))
      exact ⟨kept, applied⟩
    · obtain ⟨fresh, negative⟩ := Classical.not_imp.mp low
      have outside : node.logAt args.prevLogIndex = none := if_neg negative
      have short : args.prevLogIndex < node.log.length := by omega
      simp only [handleAppendEntries, ge_iff_le, if_pos fresh, if_pos short, outside] at ran
      cases ran
  | voteReply electionTerm peer reply =>
    obtain rfl := Option.some.inj moved
    rcases handleVoteReply_cases node electionTerm peer reply with same | ⟨-, same⟩ | ⟨-, -, -, -, ⟨-, same⟩ | same⟩
    · rw [same]
      exact ⟨sound, Applies.none sound.applied rfl rfl rfl⟩
    · rw [same]
      exact frame (.inl rfl) rfl rfl rfl
    · rw [same]
      exact frame (.inl rfl) rfl rfl rfl
    · rw [same]
      exact frame (.inl rfl) rfl rfl rfl
  | appendReply peer sentMatchIndex reply =>
    obtain ⟨reached, same, kept, applied⟩ := handleAppendEntriesReply_sound sound peer sentMatchIndex reply
    obtain rfl := Option.some.inj (same.symm.trans moved)
    exact ⟨kept, applied⟩

theorem sound_new (nodeId : Int) (peers : List Int) (onCommit : Bool) : (new nodeId peers onCommit).Sound :=
  ⟨rfl, Int.le_refl 0, Int.le_refl 0⟩

theorem sound {past : List RaftNode} (run : Reaches past node) : node.Sound := by
  refine @Run.invariant _ _ Initial Step (fun _ state => state.Sound) ?_
    (fun _ _ _ _ _ known step => (act_sound known step.2.1).1) _ _ run
  rintro fresh ⟨nodeId, peers, onCommit, -, rfl⟩
  exact sound_new nodeId peers onCommit

/-- The AppendEntries requests that name a position before the log and are looked at. -/
def Underflows (node : RaftNode) (message : RpcMessage) : Prop :=
  message.type = .appendEntries ∧ node.currentTerm ≤ message.term ∧
    ∃ args, deserializeAppendEntriesPayload message.payload = some args ∧ args.prevLogIndex < 0

/-- HandleMessage stays inside the log and keeps the sentinel unless a request names a negative
previous index. -/
theorem handleMessage_inside {past : List RaftNode} (run : Reaches past node) {bytes : Bytes} {message : RpcMessage}
    (_ : Rpc.deserializeRpcMessage bytes = some message) :
    (∃ later reply, node.handleMessage message = some (later, reply) ∧ later.log.head? = some sentinel) ↔
      ¬ node.Underflows message := by
  have known := sound run
  have other : message.type ≠ .appendEntries → ¬ node.Underflows message := fun different flows => different flows.1
  have unread : (∃ later reply, some (node, node.pong) = some (later, reply) ∧ later.log.head? = some sentinel) :=
    ⟨node, node.pong, rfl, known.starts⟩
  unfold handleMessage
  cases type : message.type with
  | requestVote =>
    have kept : (node.handleRequestVote message.term message.senderId).1.log.head? = some sentinel := by
      rcases handleRequestVote_cases node message.term message.senderId with same | ⟨-, -, same⟩
      · rw [same]
        exact known.starts
      · rw [same]
        exact known.starts
    exact iff_of_true ⟨_, _, rfl, kept⟩ (other (by rw [type]; decide))
  | appendEntries =>
    cases decoded : deserializeAppendEntriesPayload message.payload with
    | none =>
      refine iff_of_true unread fun flows => ?_
      obtain ⟨-, -, args, read, -⟩ := flows
      cases decoded.symm.trans read
    | some args =>
      by_cases low : node.currentTerm ≤ message.term → 0 ≤ args.prevLogIndex
      · obtain ⟨later, reply, ran, kept, -⟩ := @handleAppendEntries_sound node known message.term message.senderId args low
        refine iff_of_true ⟨later, reply, ran, kept.starts⟩ fun flows => ?_
        obtain ⟨-, fresh, read, same, negative⟩ := flows
        obtain rfl := Option.some.inj (decoded.symm.trans same)
        exact absurd (low fresh) (Int.not_le.mpr negative)
      · obtain ⟨fresh, negative⟩ := Classical.not_imp.mp low
        have outside : node.logAt args.prevLogIndex = none := if_neg negative
        have short : args.prevLogIndex < node.log.length := by omega
        have flows : node.Underflows message := ⟨type, fresh, args, decoded, Int.not_le.mp negative⟩
        have undefined : node.handleAppendEntries message.term message.senderId args = none := by
          simp only [handleAppendEntries, ge_iff_le, if_pos fresh, if_pos short, outside]
        refine iff_of_false (fun answered => ?_) (not_not.mpr flows)
        obtain ⟨later, reply, ran, -⟩ := answered
        cases undefined.symm.trans ran
  | requestVoteReply => exact iff_of_true unread (other (by rw [type]; decide))
  | appendEntriesReply => exact iff_of_true unread (other (by rw [type]; decide))
  | ping => exact iff_of_true unread (other (by rw [type]; decide))
  | pong => exact iff_of_true unread (other (by rw [type]; decide))

theorem handleMessage_inside_heartbeat :
    ∃ later reply, (new 1 [2] true).handleMessage ⟨.appendEntries, 1, 2, serializeAppendEntriesPayload ⟨0, 0, 0, []⟩⟩ =
      some (later, reply) ∧ later.log.head? = some sentinel := by
  have fresh : Reaches [] (new 1 [2] true) := .start ⟨1, [2], true, by decide, rfl⟩
  refine (handleMessage_inside fresh (Rpc.deserializeRpcMessage_frame ⟨by decide, by decide⟩ (by decide))).mpr ?_
  rintro ⟨-, -, args, decoded, negative⟩
  have read : deserializeAppendEntriesPayload (serializeAppendEntriesPayload ⟨0, 0, 0, []⟩) = some ⟨0, 0, 0, []⟩ := by decide
  obtain rfl := Option.some.inj (read.symm.trans decoded)
  exact absurd negative (by decide)

/-- A request with previous index -1 has a new node read the element before its log. -/
theorem handleMessage_inside_fails : ¬ ∀ past node bytes message, Reaches past node →
    Rpc.deserializeRpcMessage bytes = some message →
      ∃ later reply, node.handleMessage message = some (later, reply) ∧ later.log.head? = some sentinel := by
  intro claim
  have fresh : Reaches [] (new 1 [2] true) := .start ⟨1, [2], true, by decide, rfl⟩
  have accepted : Rpc.deserializeRpcMessage (Rpc.frame ⟨.appendEntries, 0, 2, serializeAppendEntriesPayload ⟨-1, 0, 0, []⟩⟩) =
      some ⟨.appendEntries, 0, 2, serializeAppendEntriesPayload ⟨-1, 0, 0, []⟩⟩ := by decide
  obtain ⟨later, reply, ran, -⟩ := claim _ _ _ _ fresh accepted
  have undefined : (new 1 [2] true).handleMessage ⟨.appendEntries, 0, 2, serializeAppendEntriesPayload ⟨-1, 0, 0, []⟩⟩ =
      none := by decide
  cases undefined.symm.trans ran

end RaftNode

end QuorumDB.Raft
