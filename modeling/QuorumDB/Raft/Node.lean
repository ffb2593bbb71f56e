import QuorumDB.Lib.Bytes
import Mathlib.Data.Finset.Card
import Mathlib.Data.Finset.Insert
import Mathlib.Logic.Function.Basic

/-!
One Raft node (`raft/raft_node.cpp`). Every handler is a function of the node it
runs on. `none` stands for a step that C++ leaves undefined: an element access
outside `log_`, or an overflow of `current_term_`. Time (deadlines, heartbeats
due) and the sockets are not modelled: a step may happen whenever its guard in
the source lets it.
-/

namespace QuorumDB.Raft

inductive RaftState where
  | follower
  | candidate
  | leader
  deriving DecidableEq, Repr

structure LogEntry where
  term : Int
  index : Int
  command : Bytes
  deriving DecidableEq, Repr

structure AppendEntriesArgs where
  prevLogIndex : Int
  prevLogTerm : Int
  leaderCommit : Int
  entries : List LogEntry
  deriving DecidableEq, Repr

inductive RpcMessageType where
  | requestVote
  | requestVoteReply
  | appendEntries
  | appendEntriesReply
  | ping
  | pong
  deriving DecidableEq, Repr

structure RpcMessage where
  type : RpcMessageType
  term : Int
  senderId : Int
  payload : Bytes
  deriving DecidableEq, Repr

/-- The payload `"1"` of a granted vote and of an accepted AppendEntries. -/
def yes : Bytes := [0x31]

def no : Bytes := [0x30]

def answer (granted : Bool) : Bytes := if granted then yes else no

@[simp] theorem answer_eq_yes (granted : Bool) : answer granted = yes ↔ granted = true := by
  cases granted <;> decide

def int32Max : Int := 2147483647

def sentinel : LogEntry := ⟨0, 0, []⟩

/-- `nextIndex` and `matchIndex` are total: `operator[]` reads an absent key as 0.
`onCommit` says whether the callback is set and `commits` lists its calls so far. -/
structure RaftNode where
  nodeId : Int
  peers : List Int
  clusterSize : Nat
  currentTerm : Int
  votedFor : Int
  state : RaftState
  leaderId : Int
  votesReceived : Finset Int
  log : List LogEntry
  commitIndex : Int
  lastApplied : Int
  nextIndex : Int → Int
  matchIndex : Int → Int
  onCommit : Bool
  running : Bool
  commits : List (Bytes × Int)

namespace RaftNode

def new (nodeId : Int) (peers : List Int) (onCommit : Bool) : RaftNode where
  nodeId := nodeId
  peers := peers
  clusterSize := peers.length + 1
  currentTerm := 0
  votedFor := -1
  state := .follower
  leaderId := -1
  votesReceived := ∅
  log := [sentinel]
  commitIndex := 0
  lastApplied := 0
  nextIndex := fun _ => 0
  matchIndex := fun _ => 0
  onCommit := onCommit
  running := false
  commits := []

/-- `log_[index]`, undefined outside the vector. -/
def logAt (node : RaftNode) (index : Int) : Option LogEntry :=
  if 0 ≤ index then node.log[index.toNat]? else none

def start (node : RaftNode) : RaftNode :=
  if node.running then node
  else { node with running := true, state := .follower, leaderId := -1 }

def stop (node : RaftNode) : RaftNode :=
  { node with running := false }

def propose (node : RaftNode) (command : Bytes) : RaftNode × Bool :=
  if node.state ≠ .leader then (node, false)
  else ({ node with log := node.log ++ [⟨node.currentTerm, node.log.length, command⟩] }, true)

def stepDown (node : RaftNode) (term : Int) : RaftNode :=
  { node with currentTerm := term, votedFor := -1, state := .follower, leaderId := -1 }

def becomeLeader (node : RaftNode) : RaftNode :=
  { node with
    state := .leader
    leaderId := node.nodeId
    nextIndex := fun id => if id ∈ node.peers then node.log.length else node.nextIndex id
    matchIndex := fun id => if id ∈ node.peers then 0 else node.matchIndex id }

def requestVoteReply (node : RaftNode) (granted : Bool) : RpcMessage :=
  ⟨.requestVoteReply, node.currentTerm, node.nodeId, answer granted⟩

/-- The term is raised first; the vote is free unless it went to another candidate. -/
def seeCandidate (node : RaftNode) (candidateTerm : Int) : RaftNode :=
  if candidateTerm > node.currentTerm then node.stepDown candidateTerm else node

/-- The assignments of a granted vote. -/
def grantVote (node : RaftNode) (candidateId : Int) : RaftNode :=
  { node with votedFor := candidateId, state := .follower, leaderId := -1 }

def handleRequestVote (node : RaftNode) (candidateTerm candidateId : Int) :
    RaftNode × RpcMessage :=
  if candidateTerm ≥ node.currentTerm then
    if (node.seeCandidate candidateTerm).votedFor = -1 ∨
        (node.seeCandidate candidateTerm).votedFor = candidateId then
      (((node.seeCandidate candidateTerm).grantVote candidateId),
        ((node.seeCandidate candidateTerm).grantVote candidateId).requestVoteReply true)
    else (node.seeCandidate candidateTerm, (node.seeCandidate candidateTerm).requestVoteReply false)
  else (node, node.requestVoteReply false)

def advanceApplied (node : RaftNode) : RaftNode :=
  { node with lastApplied := node.lastApplied + 1 }

/-- The node after one call of the callback. -/
def callOnCommit (node : RaftNode) (entry : LogEntry) : RaftNode :=
  { node with commits := node.commits ++ [(entry.command, node.lastApplied)] }

/-- `while (last_applied_ < commit_index_)`, with the number of rounds left. -/
def applyRounds : Nat → RaftNode → Option RaftNode
  | 0, node => some node
  | rounds + 1, node =>
      if node.onCommit then
        match node.advanceApplied.logAt node.advanceApplied.lastApplied with
        | none => none
        | some entry => applyRounds rounds (node.advanceApplied.callOnCommit entry)
      else applyRounds rounds node.advanceApplied

def applyCommittedEntriesLocked (node : RaftNode) : Option RaftNode :=
  applyRounds (node.commitIndex - node.lastApplied).toNat node

/-- One pass of the loop over the request's entries, at position `index` of `log_`. -/
def placeEntry (log : List LogEntry) (index : Nat) (entry : LogEntry) : List LogEntry :=
  match log[index]? with
  | some old => if old.term ≠ entry.term then log.take index ++ [entry] else log
  | none => log ++ [entry]

/-- The loop over the request's entries; `index` is the position before the first of them. -/
def placeEntries : List LogEntry → Nat → List LogEntry → List LogEntry
  | log, _, [] => log
  | log, index, entry :: rest => placeEntries (placeEntry log (index + 1) entry) (index + 1) rest

def appendEntriesReply (node : RaftNode) (success : Bool) : RpcMessage :=
  ⟨.appendEntriesReply, node.currentTerm, node.nodeId, answer success⟩

/-- The assignments made for any AppendEntries whose term is not stale. -/
def seeLeader (node : RaftNode) (term leaderId : Int) : RaftNode :=
  { (if term > node.currentTerm then { node with currentTerm := term, votedFor := -1 } else node) with
    state := .follower
    leaderId := leaderId }

def repairLog (node : RaftNode) (args : AppendEntriesArgs) : RaftNode :=
  { node with log := placeEntries node.log args.prevLogIndex.toNat args.entries }

def setCommitIndex (node : RaftNode) (commitIndex : Int) : RaftNode :=
  { node with commitIndex := commitIndex }

/-- The branch taken when the previous entry matches. -/
def acceptEntries (node : RaftNode) (args : AppendEntriesArgs) : Option RaftNode :=
  if args.leaderCommit > node.commitIndex then
    ((node.repairLog args).setCommitIndex
      (min args.leaderCommit (args.prevLogIndex + args.entries.length))).applyCommittedEntriesLocked
  else some (node.repairLog args)

def handleAppendEntries (node : RaftNode) (term leaderId : Int) (args : AppendEntriesArgs) :
    Option (RaftNode × RpcMessage) :=
  if term ≥ node.currentTerm then
    if args.prevLogIndex < node.log.length then
      match node.logAt args.prevLogIndex with
      | none => none
      | some prev =>
          if prev.term = args.prevLogTerm then
            match (node.seeLeader term leaderId).acceptEntries args with
            | none => none
            | some later => some (later, later.appendEntriesReply true)
          else some (node.seeLeader term leaderId,
            (node.seeLeader term leaderId).appendEntriesReply false)
    else some (node.seeLeader term leaderId,
      (node.seeLeader term leaderId).appendEntriesReply false)
  else some (node, node.appendEntriesReply false)

def voteRequests (node : RaftNode) : List (Int × RpcMessage) :=
  node.peers.map fun peer => (peer, ⟨.requestVote, node.currentTerm, node.nodeId, []⟩)

/-- The assignments that open a campaign. -/
def becomeCandidate (node : RaftNode) : RaftNode :=
  { node with
    state := .candidate
    currentTerm := node.currentTerm + 1
    votedFor := node.nodeId
    leaderId := -1
    votesReceived := {node.nodeId} }

def hasMajority (node : RaftNode) : Prop :=
  node.votesReceived.card > node.clusterSize / 2

instance (node : RaftNode) : Decidable node.hasMajority :=
  inferInstanceAs (Decidable (node.votesReceived.card > node.clusterSize / 2))

/-- A node that wins at once has no votes to ask for; its SendHeartbeats is a step of its own. -/
def startElection (node : RaftNode) : Option (RaftNode × List (Int × RpcMessage)) :=
  if node.running = false ∨ node.state = .leader then some (node, [])
  else if node.currentTerm ≥ int32Max then none
  else if node.becomeCandidate.hasMajority then some (node.becomeCandidate.becomeLeader, [])
  else some (node.becomeCandidate, node.becomeCandidate.voteRequests)

def addVote (node : RaftNode) (peerId : Int) : RaftNode :=
  { node with votesReceived := insert peerId node.votesReceived }

def handleVoteReply (node : RaftNode) (electionTerm peerId : Int) (reply : RpcMessage) : RaftNode :=
  if node.running = false then node
  else if reply.term > node.currentTerm then node.stepDown reply.term
  else if node.state ≠ .candidate ∨ node.currentTerm ≠ electionTerm ∨
      reply.type ≠ .requestVoteReply ∨ reply.term ≠ electionTerm ∨ reply.payload ≠ yes then node
  else if (node.addVote peerId).hasMajority then (node.addVote peerId).becomeLeader
  else node.addVote peerId

/-- The request for one peer; reading `log_[prev_log_index]` may fall outside the log. -/
def heartbeatFor (node : RaftNode) (peer : Int) : Option (Int × AppendEntriesArgs) :=
  match node.logAt (node.nextIndex peer - 1) with
  | none => none
  | some prev => some (peer, {
      prevLogIndex := node.nextIndex peer - 1
      prevLogTerm := prev.term
      leaderCommit := node.commitIndex
      entries := node.log.drop (node.nextIndex peer).toNat })

def sendHeartbeats (node : RaftNode) : Option (List (Int × AppendEntriesArgs)) :=
  if node.running = false ∨ node.state ≠ .leader then some []
  else node.peers.mapM node.heartbeatFor

/-- Peers counted by the commit scan at index `n`, the leader itself included. -/
def matchCount (node : RaftNode) (n : Int) : Nat :=
  1 + (node.peers.filter fun peer => decide (node.matchIndex peer ≥ n)).length

/-- The commit scan going down from index `rounds - 1`. -/
def commitScan (node : RaftNode) : Nat → Option RaftNode
  | 0 => if -1 > node.commitIndex then none else some node
  | n + 1 =>
      if (n : Int) > node.commitIndex then
        match node.logAt n with
        | none => none
        | some entry =>
            if entry.term = node.currentTerm ∧ node.matchCount n > node.clusterSize / 2 then
              (node.setCommitIndex n).applyCommittedEntriesLocked
            else commitScan node n
      else some node

def advanceCommitIndexLocked (node : RaftNode) : Option RaftNode :=
  node.commitScan node.log.length

def setNextIndex (node : RaftNode) (peerId next : Int) : RaftNode :=
  { node with nextIndex := Function.update node.nextIndex peerId next }

def setMatchIndex (node : RaftNode) (peerId matched : Int) : RaftNode :=
  { node with matchIndex := Function.update node.matchIndex peerId matched }

/-- The two assignments made for an accepted request. -/
def acknowledge (node : RaftNode) (peerId sentMatchIndex : Int) : RaftNode :=
  (node.setMatchIndex peerId (max (node.matchIndex peerId) sentMatchIndex)).setNextIndex peerId
    (max (node.matchIndex peerId) sentMatchIndex + 1)

def handleAppendEntriesReply (node : RaftNode) (peerId : Int) (reply : RpcMessage)
    (sentMatchIndex : Int) : Option RaftNode :=
  if node.running = false ∨ node.state ≠ .leader then some node
  else if reply.term > node.currentTerm then some (node.stepDown reply.term)
  else if reply.type = .appendEntriesReply then
    if reply.payload = yes then
      (node.acknowledge peerId sentMatchIndex).advanceCommitIndexLocked
    else some (node.setNextIndex peerId (max 1 (node.nextIndex peerId - 1)))
  else some node

end RaftNode

end QuorumDB.Raft
