import QuorumDB.Lib.Execution
import QuorumDB.Lib.Quorum
import QuorumDB.Raft.Node

/-!
A cluster of nodes and the messages in flight between them. A request carries
what its sender's RPC thread captured, and the reply is handed to that thread's
handler together with it. Delivery takes any packet at any time; packets can be
dropped and, where a statement allows it, duplicated.
-/

namespace QuorumDB.Raft
open Execution

inductive Packet where
  | voteRequest (target : Int) (request : RpcMessage)
  | voteReply (target electionTerm peer : Int) (reply : RpcMessage)
  | appendRequest (target term leader : Int) (args : AppendEntriesArgs)
  | appendReply (target peer sentMatchIndex : Int) (reply : RpcMessage)
  deriving DecidableEq, Repr

def Packet.target : Packet → Int
  | .voteRequest target _ => target
  | .voteReply target _ _ _ => target
  | .appendRequest target _ _ _ => target
  | .appendReply target _ _ _ => target

def Packet.isAppend : Packet → Bool
  | .appendRequest .. => true
  | .appendReply .. => true
  | _ => false

structure Cluster where
  members : List Int
  node : Int → RaftNode
  net : List Packet

inductive Action where
  | start (id : Int)
  | stop (id : Int)
  | startElection (id : Int)
  | propose (id : Int) (command : Bytes)
  | sendHeartbeats (id : Int)
  | deliver (position : Nat)
  | drop (position : Nat)
  | duplicate (position : Nat)
  deriving DecidableEq, Repr

def Action.isDuplicate : Action → Bool
  | .duplicate _ => true
  | _ => false

namespace Cluster

def set (cluster : Cluster) (id : Int) (node : RaftNode) : Cluster :=
  { cluster with node := Function.update cluster.node id node }

@[simp] theorem set_members (cluster : Cluster) (id : Int) (node : RaftNode) :
    (cluster.set id node).members = cluster.members := rfl

@[simp] theorem set_net (cluster : Cluster) (id : Int) (node : RaftNode) :
    (cluster.set id node).net = cluster.net := rfl

@[simp] theorem set_same (cluster : Cluster) (id : Int) (node : RaftNode) :
    (cluster.set id node).node id = node := Function.update_self ..

theorem set_other (cluster : Cluster) (id : Int) (node : RaftNode) {other : Int}
    (different : other ≠ id) : (cluster.set id node).node other = cluster.node other :=
  Function.update_of_ne different _ _

def send (cluster : Cluster) (packets : List Packet) : Cluster :=
  { cluster with net := cluster.net ++ packets }

@[simp] theorem send_members (cluster : Cluster) (packets : List Packet) :
    (cluster.send packets).members = cluster.members := rfl

@[simp] theorem send_node (cluster : Cluster) (packets : List Packet) :
    (cluster.send packets).node = cluster.node := rfl

@[simp] theorem send_net (cluster : Cluster) (packets : List Packet) :
    (cluster.send packets).net = cluster.net ++ packets := rfl

/-- The handler a packet runs, and the reply it puts in flight. -/
def receive (cluster : Cluster) : Packet → Option Cluster
  | .voteRequest target request =>
      if target ∈ cluster.members then
        let (node, reply) := (cluster.node target).handleRequestVote request.term request.senderId
        some ((cluster.set target node).send [.voteReply request.senderId request.term target reply])
      else none
  | .voteReply target electionTerm peer reply =>
      if target ∈ cluster.members then
        some (cluster.set target ((cluster.node target).handleVoteReply electionTerm peer reply))
      else none
  | .appendRequest target term leader args =>
      if target ∈ cluster.members then do
        let (node, reply) ← (cluster.node target).handleAppendEntries term leader args
        some ((cluster.set target node).send
          [.appendReply leader target (args.prevLogIndex + args.entries.length) reply])
      else none
  | .appendReply target peer sentMatchIndex reply =>
      if target ∈ cluster.members then do
        let node ← (cluster.node target).handleAppendEntriesReply peer reply sentMatchIndex
        some (cluster.set target node)
      else none

def unwire (cluster : Cluster) (position : Nat) : Cluster :=
  { cluster with net := cluster.net.eraseIdx position }

def heartbeatPackets (node : RaftNode) (requests : List (Int × AppendEntriesArgs)) : List Packet :=
  requests.map fun request =>
    .appendRequest request.1 node.currentTerm node.nodeId request.2

def act (cluster : Cluster) : Action → Option Cluster
  | .start id => if id ∈ cluster.members then some (cluster.set id (cluster.node id).start) else none
  | .stop id => if id ∈ cluster.members then some (cluster.set id (cluster.node id).stop) else none
  | .startElection id =>
      if id ∈ cluster.members then do
        let (node, requests) ← (cluster.node id).startElection
        some ((cluster.set id node).send (requests.map fun request => .voteRequest request.1 request.2))
      else none
  | .propose id command =>
      if id ∈ cluster.members then some (cluster.set id ((cluster.node id).propose command).1)
      else none
  | .sendHeartbeats id =>
      if id ∈ cluster.members then do
        let requests ← (cluster.node id).sendHeartbeats
        some (cluster.send (heartbeatPackets (cluster.node id) requests))
      else none
  | .deliver position => do
      let packet ← cluster.net[position]?
      (cluster.unwire position).receive packet
  | .drop position => some (cluster.unwire position)
  | .duplicate position => do
      let packet ← cluster.net[position]?
      some (cluster.send [packet])

def actor (cluster : Cluster) : Action → Option Int
  | .start id => some id
  | .stop id => some id
  | .startElection id => some id
  | .propose id _ => some id
  | .sendHeartbeats id => some id
  | .deliver position => cluster.net[position]?.map Packet.target
  | .drop _ => none
  | .duplicate _ => none

/-- A freshly built cluster: each member knows exactly the other members. -/
def Initial (cluster : Cluster) : Prop :=
  cluster.members.Nodup ∧ -1 ∉ cluster.members ∧ cluster.net = [] ∧
    ∀ id ∈ cluster.members, ∃ peers onCommit, cluster.node id = RaftNode.new id peers onCommit ∧
      peers.Nodup ∧ ∀ peer, peer ∈ peers ↔ peer ∈ cluster.members ∧ peer ≠ id

def Step (cluster : Cluster) (action : Action) (later : Cluster) : Prop :=
  cluster.act action = some later

/-- Executions of a cluster in which packets may also be duplicated. -/
abbrev Reaches : List Cluster → Cluster → Prop := Run Initial Step

def StepWhen (allowed : Cluster → Action → Prop) (cluster : Cluster) (action : Action)
    (later : Cluster) : Prop :=
  Step cluster action later ∧ allowed cluster action

abbrev ReachesWhen (allowed : Cluster → Action → Prop) : List Cluster → Cluster → Prop :=
  Run Initial (StepWhen allowed)

theorem ReachesWhen.reaches {allowed : Cluster → Action → Prop} {past : List Cluster} {cluster : Cluster}
    (run : ReachesWhen allowed past cluster) : Reaches past cluster :=
  run.mono fun _ action _ step => ⟨action, step.1⟩

def NoDuplicate (_ : Cluster) (action : Action) : Prop :=
  action.isDuplicate = false

/-- Steps of a cluster in which, besides, AppendEntries requests and replies of any
content may turn up. -/
def LooseStep (cluster : Cluster) : Action ⊕ Packet → Cluster → Prop
  | .inl action, later => Step cluster action later
  | .inr packet, later => packet.isAppend = true ∧ later = cluster.send [packet]

abbrev LooselyReaches : List Cluster → Cluster → Prop := Run Initial LooseStep

theorem Reaches.loosely {past : List Cluster} {cluster : Cluster} (run : Reaches past cluster) :
    LooselyReaches past cluster :=
  run.mono fun _ action _ step => ⟨.inl action, step⟩

def trio : Cluster where
  members := [1, 2, 3]
  node := fun id => RaftNode.new id ([1, 2, 3].erase id) true
  net := []

instance (cluster : Cluster) (action : Action) : Decidable (NoDuplicate cluster action) :=
  inferInstanceAs (Decidable (action.isDuplicate = false))

theorem trio_initial : Initial trio := by
  refine ⟨by decide, by decide, rfl, fun id member => ⟨[1, 2, 3].erase id, true, rfl, ?_, fun peer => ?_⟩⟩
  · exact (by decide : [(1 : Int), 2, 3].Nodup).erase id
  · rw [(by decide : [(1 : Int), 2, 3].Nodup).mem_erase_iff]
    exact and_comm

def actWhen (allowed : Cluster → Action → Prop) [∀ cluster action, Decidable (allowed cluster action)]
    (cluster : Cluster) (action : Action) : Option Cluster :=
  if allowed cluster action then cluster.act action else none

theorem actWhen_step {allowed : Cluster → Action → Prop}
    [∀ cluster action, Decidable (allowed cluster action)] {cluster later : Cluster} {action : Action}
    (ran : cluster.actWhen allowed action = some later) : StepWhen allowed cluster action later := by
  unfold actWhen at ran
  split_ifs at ran with allows
  exact ⟨ran, allows⟩

theorem initial_replay {allowed : Cluster → Action → Prop}
    [∀ cluster action, Decidable (allowed cluster action)] {fresh : Cluster} (initial : Initial fresh) {actions : List Action}
    {visited : List Cluster × Cluster} (played : replay (actWhen allowed) fresh actions = some visited) :
    ReachesWhen allowed visited.1 visited.2 := by
  have run := Run.append_replay (.start initial) played
  rw [List.append_nil] at run
  apply run.mono
  exact fun _ action _ step => ⟨action, actWhen_step step⟩

theorem trio_replay {allowed : Cluster → Action → Prop}
    [∀ cluster action, Decidable (allowed cluster action)] {actions : List Action}
    {visited : List Cluster × Cluster} (played : replay (actWhen allowed) trio actions = some visited) :
    ReachesWhen allowed visited.1 visited.2 :=
  initial_replay trio_initial played

end Cluster

end QuorumDB.Raft
