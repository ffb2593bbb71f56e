import QuorumDB.Lib.Simulation
import QuorumDB.Raft.Delivery
import QuorumDB.Raft.Permanence
import QuorumDB.Rpc.Exchange

/-!
The cluster over its connections. Each RPC thread has one, on which either side may be cut off at
any byte. What a connection can still deliver is a packet of the cluster, or nothing.
-/

namespace QuorumDB.Raft
open Execution NetworkOrder Rpc

inductive Awaited where
  | vote (electionTerm : Int)
  | append (sentMatchIndex : Int)
  deriving DecidableEq

inductive Stage where
  | unsent
  | sent (bytes : Bytes)
  | served (bytes : Bytes)
  deriving DecidableEq

/-- An RPC thread and its connection. The peer may serve a request whose caller no longer waits. -/
structure Exchange where
  caller : Int
  peer : Int
  awaited : Awaited
  request : RpcMessage
  stage : Stage
  waits : Bool
  deriving DecidableEq

structure Wire where
  members : List Int
  node : Int → RaftNode
  exchanges : List Exchange

/-- Serving is all of HandleConnection, collecting is what follows SendAll in an RPC thread. -/
inductive WireAction where
  | start (id : Int)
  | stop (id : Int)
  | startElection (id : Int)
  | propose (id : Int) (command : Bytes)
  | sendHeartbeats (id : Int)
  | send (position : Nat) (results : List Nat)
  | serve (position : Nat) (chunks : List Bytes) (results : List Nat)
  | collect (position : Nat) (chunks : List Bytes)

namespace Exchange

def forVote (caller : Int) (request : Int × RpcMessage) : Exchange :=
  ⟨caller, request.1, .vote request.2.term, request.2, .unsent, true⟩

def forAppend (node : RaftNode) (caller : Int) (request : Int × AppendEntriesArgs) : Exchange :=
  ⟨caller, request.1, .append (request.2.prevLogIndex + request.2.entries.length), node.appendEntriesRequest request.2,
    .unsent, true⟩

def homeward (exchange : Exchange) : Bytes :=
  match exchange.stage with
  | .served bytes => bytes
  | _ => []

def handleReply (exchange : Exchange) (node : RaftNode) (reply : RpcMessage) : Option RaftNode :=
  match exchange.awaited with
  | .vote electionTerm => some (node.handleVoteReply electionTerm exchange.peer reply)
  | .append sentMatchIndex => node.handleAppendEntriesReply exchange.peer reply sentMatchIndex

def requestPacket (exchange : Exchange) : Option Packet :=
  match exchange.awaited with
  | .vote _ => some (.voteRequest exchange.peer exchange.request)
  | .append _ => (deserializeAppendEntriesPayload exchange.request.payload).map fun args =>
      .appendRequest exchange.peer exchange.request.term exchange.request.senderId args

def replyPacket (exchange : Exchange) (reply : RpcMessage) : Packet :=
  match exchange.awaited with
  | .vote electionTerm => .voteReply exchange.caller electionTerm exchange.peer reply
  | .append sentMatchIndex => .appendReply exchange.caller exchange.peer sentMatchIndex reply

def packet (exchange : Exchange) : Option Packet :=
  match exchange.stage with
  | .served bytes => if exchange.waits then (receiveMessage bytes).map exchange.replyPacket else none
  | _ => exchange.requestPacket

end Exchange

namespace Wire

def set (wire : Wire) (id : Int) (node : RaftNode) : Wire := { wire with node := Function.update wire.node id node }

def setExchange (wire : Wire) (position : Nat) (exchange : Exchange) : Wire :=
  { wire with exchanges := wire.exchanges.set position exchange }

/-- Where SendAll fails the thread ends, as it does where no connection is made. -/
def send (wire : Wire) (position : Nat) (results : List Nat) : Option Wire := do
  let exchange ← wire.exchanges[position]?
  if exchange.stage = .unsent then
    let bytes ← serializeRpcMessage exchange.request
    some (wire.setExchange position
      { exchange with stage := .sent (sendAll results bytes).1, waits := (sendAll results bytes).2 })
  else none

def serve (wire : Wire) (position : Nat) (chunks : List Bytes) (results : List Nat) : Option Wire := do
  let exchange ← wire.exchanges[position]?
  match exchange.stage with
  | .sent bytes =>
      if Arrives chunks bytes ∧ exchange.peer ∈ wire.members then
        let (node, reply) ← handleConnection RaftNode.handleMessage (wire.node exchange.peer) chunks results
        some ((wire.set exchange.peer node).setExchange position { exchange with stage := .served reply })
      else none
  | _ => none

/-- A timeout comes to chunks that are not a whole reply. -/
def collect (wire : Wire) (position : Nat) (chunks : List Bytes) : Option Wire := do
  let exchange ← wire.exchanges[position]?
  if exchange.stage ≠ .unsent ∧ exchange.waits ∧ Arrives chunks exchange.homeward ∧ exchange.caller ∈ wire.members then
    match receiveFrom chunks with
    | none => some (wire.setExchange position { exchange with waits := false })
    | some (reply, _) =>
        let node ← exchange.handleReply (wire.node exchange.caller) reply
        some ((wire.set exchange.caller node).setExchange position { exchange with waits := false })
  else none

def act (wire : Wire) : WireAction → Option Wire
  | .start id => if id ∈ wire.members then some (wire.set id (wire.node id).start) else none
  | .stop id => if id ∈ wire.members then some (wire.set id (wire.node id).stop) else none
  | .startElection id =>
      if id ∈ wire.members then do
        let (node, requests) ← (wire.node id).startElection
        some { wire.set id node with exchanges := wire.exchanges ++ requests.map (Exchange.forVote id) }
      else none
  | .propose id command => if id ∈ wire.members then some (wire.set id ((wire.node id).propose command).1) else none
  | .sendHeartbeats id =>
      if id ∈ wire.members then do
        let requests ← (wire.node id).sendHeartbeats
        some { wire with exchanges := wire.exchanges ++ requests.map (Exchange.forAppend (wire.node id) id) }
      else none
  | .send position results => wire.send position results
  | .serve position chunks results => wire.serve position chunks results
  | .collect position chunks => wire.collect position chunks

/-- No vector has 2^63 elements, and no request is so long that its size wraps around. -/
structure Roomy (wire : Wire) : Prop where
  logs : ∀ id ∈ wire.members, (wire.node id).log.length < 2 ^ 63
  requests : ∀ exchange ∈ wire.exchanges, 13 + exchange.request.payload.length < 2 ^ 32

def Initial (wire : Wire) : Prop :=
  Cluster.Initial ⟨wire.members, wire.node, []⟩ ∧ wire.exchanges = [] ∧ ∀ id ∈ wire.members, Signed 32 id

def Step (wire : Wire) (action : WireAction) (later : Wire) : Prop := wire.act action = some later ∧ later.Roomy

abbrev Reaches : List Wire → Wire → Prop := Run Initial Step

end Wire

namespace Exchange

structure Built (members : List Int) (exchange : Exchange) : Prop where
  caller : exchange.caller ∈ members
  target : exchange.peer ∈ members
  peer : Signed 32 exchange.peer
  sender : exchange.request.senderId = exchange.caller
  typed : Rpc.Typed exchange.request
  made : (exchange.awaited = .vote exchange.request.term ∧ exchange.request.type = .requestVote) ∨
    ∃ args : AppendEntriesArgs, args.Typed ∧ 0 ≤ args.prevLogIndex ∧ Signed 64 (args.prevLogIndex + args.entries.length) ∧
      exchange.awaited = .append (args.prevLogIndex + args.entries.length) ∧ exchange.request.type = .appendEntries ∧
      exchange.request.payload = serializeAppendEntriesPayload args
  outward : ∀ bytes, exchange.stage = .sent bytes → bytes <+: frame exchange.request
  replied : ∀ bytes reply, exchange.stage = .served bytes → receiveMessage bytes = some reply → Rpc.Typed reply

variable {exchange : Exchange} {exchanges : List Exchange} {node later : RaftNode} {members : List Int}

theorem packets_set {position : Nat} (found : exchanges[position]? = some exchange) :
    ∃ rest, (exchanges.filterMap packet).Perm (exchange.packet.toList ++ rest) ∧
      ∀ other, ((exchanges.set position other).filterMap packet).Perm (other.packet.toList ++ rest) := by
  have one : ∀ (early late : List Exchange) (other : Exchange),
      ((early ++ other :: late).filterMap packet).Perm (other.packet.toList ++ (early.filterMap packet ++ late.filterMap packet)) := by
    intro early late other
    have middle : (other :: late).filterMap packet = other.packet.toList ++ late.filterMap packet := by
      rw [List.filterMap_cons]
      cases other.packet with
      | none => rfl
      | some packet => rfl
    rw [List.filterMap_append, middle]
    exact List.perm_append_comm_assoc _ _ _
  have inside := TermLog.lt_of_getElem? found
  have split : exchanges = exchanges.take position ++ exchange :: exchanges.drop (position + 1) := by
    obtain ⟨_, rfl⟩ := List.getElem?_eq_some_iff.mp found
    rw [← List.drop_eq_getElem_cons, List.take_append_drop]
  refine ⟨(exchanges.take position).filterMap packet ++ (exchanges.drop (position + 1)).filterMap packet, ?_, fun other => ?_⟩
  · conv_lhs => rw [split]
    exact one _ _ _
  · rw [List.set_eq_take_append_cons_drop, if_pos inside]
    exact one _ _ _

theorem packet_served {bytes : Bytes} {reply : RpcMessage} (typed : Rpc.Typed reply) (small : reply.payload.length = 1)
    (front : bytes <+: frame reply) :
    { exchange with stage := .served bytes }.packet = some (exchange.replyPacket reply) ∨
      { exchange with stage := .served bytes }.packet = none := by
  have limit : 13 + reply.payload.length ≤ maxMessageSize := by
    rw [small]
    decide
  unfold packet
  cases exchange.waits with
  | false => exact .inr rfl
  | true =>
    rcases receiveMessage_front typed limit front with whole | nothing
    · exact .inl (congrArg (Option.map exchange.replyPacket) whole)
    · exact .inr (congrArg (Option.map exchange.replyPacket) nothing)

theorem sent_or_served (sent : exchange.stage ≠ .unsent) :
    (∃ bytes, exchange.stage = .sent bytes) ∨ ∃ bytes, exchange.stage = .served bytes := by
  match stage : exchange.stage with
  | .unsent => exact absurd stage sent
  | .sent bytes => exact .inl ⟨bytes, rfl⟩
  | .served bytes => exact .inr ⟨bytes, rfl⟩

theorem packet_forAppend (caller : Int) {request : Int × AppendEntriesArgs} (typed : request.2.Typed)
    (small : 13 + (serializeAppendEntriesPayload request.2).length < 2 ^ 32) :
    (forAppend node caller request).packet = some (.appendRequest request.1 node.currentTerm node.nodeId request.2) := by
  have short : entriesSize request.2.entries < 2 ^ 32 := by
    rw [serializeAppendEntriesPayload_length] at small
    omega
  have decoded := deserializeAppendEntriesPayload_serialize typed short
  change (deserializeAppendEntriesPayload (serializeAppendEntriesPayload request.2)).map _ = _
  rw [decoded]
  rfl

theorem Built.serves (built : exchange.Built members) (small : 13 + exchange.request.payload.length < 2 ^ 32) {reply : RpcMessage}
    (handled : node.handleMessage exchange.request = some (later, reply)) :
    (exchange.awaited = .vote exchange.request.term ∧
      exchange.requestPacket = some (.voteRequest exchange.peer exchange.request) ∧
      node.handleRequestVote exchange.request.term exchange.request.senderId = (later, reply)) ∨
    ∃ args : AppendEntriesArgs, args.Typed ∧ exchange.awaited = .append (args.prevLogIndex + args.entries.length) ∧
      exchange.requestPacket = some (.appendRequest exchange.peer exchange.request.term exchange.request.senderId args) ∧
      node.handleAppendEntries exchange.request.term exchange.request.senderId args = some (later, reply) := by
  unfold RaftNode.handleMessage at handled
  unfold requestPacket
  rcases built.made with ⟨awaited, type⟩ | ⟨args, typed, -, -, awaited, type, payload⟩
  · rw [type] at handled
    rw [awaited]
    exact .inl ⟨rfl, rfl, Option.some.inj handled⟩
  · have short : entriesSize args.entries < 2 ^ 32 := by
      rw [payload, serializeAppendEntriesPayload_length] at small
      omega
    have decoded := deserializeAppendEntriesPayload_serialize typed short
    rw [← payload] at decoded
    rw [type] at handled
    simp only [decoded] at handled
    rw [awaited, decoded]
    exact .inr ⟨args, typed, rfl, rfl, handled⟩

theorem Built.served (built : exchange.Built members) (small : 13 + exchange.request.payload.length < 2 ^ 32) {reply : RpcMessage}
    (handled : node.handleMessage exchange.request = some (later, reply)) :
    (∃ action : NodeAction, action.Typed ∧ node.act action = some later) ∧
      reply.term = later.currentTerm ∧ reply.senderId = later.nodeId ∧ reply.payload.length = 1 := by
  have one : ∀ granted, (answer granted).length = 1 := fun granted => by cases granted <;> rfl
  rcases built.serves small handled with ⟨-, -, ran⟩ | ⟨args, typed, -, -, ran⟩
  · refine ⟨⟨.requestVote exchange.request.term exchange.request.senderId, built.typed, ?_⟩, ?_⟩
    · exact congrArg (fun result => some result.1) ran
    · rcases RaftNode.handleRequestVote_cases node exchange.request.term exchange.request.senderId with same | ⟨-, -, same⟩
      · obtain ⟨rfl, rfl⟩ := Prod.mk.inj (same.symm.trans ran)
        exact ⟨rfl, rfl, one false⟩
      · obtain ⟨rfl, rfl⟩ := Prod.mk.inj (same.symm.trans ran)
        exact ⟨rfl, rfl, one true⟩
  · refine ⟨⟨.appendEntries exchange.request.term exchange.request.senderId args, ⟨built.typed.1, built.typed.2, typed⟩, ?_⟩, ?_⟩
    · rw [RaftNode.act, ran]
      rfl
    · rcases RaftNode.handleAppendEntries_cases ran with ⟨-, rfl, rfl⟩ | ⟨-, -, rfl⟩ | ⟨-, rfl, -⟩
      · exact ⟨rfl, rfl, one false⟩
      · exact ⟨rfl, rfl, one false⟩
      · exact ⟨rfl, rfl, one true⟩

theorem Built.answered (built : exchange.Built members) (small : 13 + exchange.request.payload.length < 2 ^ 32) (sound : node.Sound) :
    ∃ later reply, node.handleMessage exchange.request = some (later, reply) := by
  unfold RaftNode.handleMessage
  rcases built.made with ⟨-, type⟩ | ⟨args, typed, low, -, -, type, payload⟩
  · rw [type]
    exact ⟨_, _, rfl⟩
  · have short : entriesSize args.entries < 2 ^ 32 := by
      rw [payload, serializeAppendEntriesPayload_length] at small
      omega
    have decoded := deserializeAppendEntriesPayload_serialize typed short
    rw [← payload] at decoded
    obtain ⟨later, reply, ran, -⟩ := @RaftNode.handleAppendEntries_sound node sound exchange.request.term
      exchange.request.senderId args fun _ => low
    rw [type]
    simp only [decoded]
    exact ⟨later, reply, ran⟩

theorem handleReply_sound (exchange : Exchange) (sound : node.Sound) (reply : RpcMessage) :
    ∃ later, exchange.handleReply node reply = some later := by
  unfold handleReply
  cases exchange.awaited with
  | vote electionTerm => exact ⟨_, rfl⟩
  | append sentMatchIndex =>
    obtain ⟨later, ran, -⟩ := RaftNode.handleAppendEntriesReply_sound sound exchange.peer sentMatchIndex reply
    exact ⟨later, ran⟩

theorem Built.collects (built : exchange.Built members) {reply : RpcMessage} (typed : Rpc.Typed reply)
    (handled : exchange.handleReply node reply = some later) : ∃ action : NodeAction, action.Typed ∧ node.act action = some later := by
  unfold handleReply at handled
  rcases built.made with ⟨awaited, -⟩ | ⟨args, -, -, index, awaited, -⟩
  · rw [awaited] at handled
    exact ⟨.voteReply exchange.request.term exchange.peer reply, ⟨built.typed.1, built.peer, typed⟩, handled⟩
  · rw [awaited] at handled
    exact ⟨.appendReply exchange.peer (args.prevLogIndex + args.entries.length) reply, ⟨built.peer, index, typed⟩, handled⟩

end Exchange

/-- The cluster with the same nodes, and the packets that the connections can still deliver. -/
structure Mirrors (wire : Wire) (cluster : Cluster) : Prop where
  members : cluster.members = wire.members
  node : cluster.node = wire.node
  net : cluster.net.Perm (wire.exchanges.filterMap Exchange.packet)
  built : ∀ exchange ∈ wire.exchanges, exchange.Built wire.members
  room : wire.Roomy
  ids : ∀ id ∈ wire.members, Signed 32 id
  fits : ∀ id ∈ wire.members, (wire.node id).Fits

section Steps

variable {wire later : Wire} {cluster : Cluster} {past : List Cluster} {exchange : Exchange} {rest : List Packet}

abbrev Onward (cluster : Cluster) : List Cluster → Cluster → Prop := Steps (Cluster.StepWhen Cluster.NoDuplicate) cluster

theorem picked {packet : Packet} {net : List Packet} (inFlight : net.Perm (packet :: rest)) :
    ∃ position, net[position]? = some packet ∧ (net.eraseIdx position).Perm rest := by
  obtain ⟨position, found⟩ := List.getElem?_of_mem (inFlight.symm.subset List.mem_cons_self)
  obtain ⟨inside, rfl⟩ := List.getElem?_eq_some_iff.mp found
  refine ⟨position, found, ?_⟩
  have moved : (net[position] :: net.eraseIdx position).Perm net := List.getElem_cons_eraseIdx_perm inside
  exact (moved.trans inFlight).cons_inv

theorem discards {packet : Option Packet} (inFlight : cluster.net.Perm (packet.toList ++ rest)) :
    ∃ left after, Onward cluster left after ∧ after.members = cluster.members ∧ after.node = cluster.node ∧
      after.net.Perm rest := by
  cases packet with
  | none => exact ⟨[], cluster, .none, rfl, rfl, inFlight⟩
  | some packet =>
    obtain ⟨position, -, fewer⟩ := picked inFlight
    have drop : cluster.StepWhen Cluster.NoDuplicate (.drop position) (cluster.unwire position) := ⟨rfl, rfl⟩
    exact ⟨[cluster], cluster.unwire position, .one drop, rfl, rfl, fewer⟩

/-- The node that is reached and the network that is left when a packet is delivered. -/
def Delivered (cluster : Cluster) (id : Int) (node : RaftNode) (net : List Packet) : Prop :=
  ∃ left after, Onward cluster left after ∧ after.members = cluster.members ∧
    after.node = Function.update cluster.node id node ∧ after.net.Perm net

theorem delivered {packet : Packet} {id : Int} {node : RaftNode} {packets : List Packet}
    (inFlight : cluster.net.Perm (packet :: rest))
    (received : ∀ net, (⟨cluster.members, cluster.node, net⟩ : Cluster).receive packet =
      some ⟨cluster.members, Function.update cluster.node id node, net ++ packets⟩) :
    Delivered cluster id node (packets ++ rest) := by
  obtain ⟨position, found, fewer⟩ := picked inFlight
  have step : cluster.StepWhen Cluster.NoDuplicate (.deliver position)
      ⟨cluster.members, Function.update cluster.node id node, cluster.net.eraseIdx position ++ packets⟩ := by
    refine ⟨?_, rfl⟩
    change Cluster.act _ _ = _
    rw [Cluster.act, found]
    exact received _
  exact ⟨_, _, .one step, rfl, rfl, (fewer.append_right packets).trans List.perm_append_comm⟩

theorem delivers_request {members : List Int} (built : exchange.Built members) (small : 13 + exchange.request.payload.length < 2 ^ 32)
    (member : exchange.peer ∈ cluster.members) (inFlight : cluster.net.Perm (exchange.requestPacket.toList ++ rest))
    {node : RaftNode} {reply : RpcMessage}
    (handled : (cluster.node exchange.peer).handleMessage exchange.request = some (node, reply)) :
    Delivered cluster exchange.peer node (exchange.replyPacket reply :: rest) := by
  rcases built.serves small handled with ⟨awaited, packet, ran⟩ | ⟨args, -, awaited, packet, ran⟩
  · rw [packet] at inFlight
    rw [Exchange.replyPacket, awaited, ← built.sender]
    refine @delivered _ _ _ _ _ [_] inFlight fun net => ?_
    rw [Cluster.receive, if_pos member]
    simp only [ran]
    rfl
  · rw [packet] at inFlight
    rw [Exchange.replyPacket, awaited, ← built.sender]
    refine @delivered _ _ _ _ _ [_] inFlight fun net => ?_
    rw [Cluster.receive, if_pos member]
    simp only [ran]
    rfl

theorem delivers_reply (member : exchange.caller ∈ cluster.members) {reply : RpcMessage}
    (inFlight : cluster.net.Perm (exchange.replyPacket reply :: rest)) {node : RaftNode}
    (handled : exchange.handleReply (cluster.node exchange.caller) reply = some node) :
    Delivered cluster exchange.caller node rest := by
  unfold Exchange.handleReply at handled
  unfold Exchange.replyPacket at inFlight
  cases awaited : exchange.awaited with
  | vote electionTerm =>
    rw [awaited] at handled inFlight
    refine @delivered _ _ _ _ _ [] inFlight fun net => ?_
    rw [Cluster.receive, if_pos member, List.append_nil]
    exact congrArg (Option.map fun later => (⟨cluster.members, Function.update cluster.node exchange.caller later, net⟩ : Cluster))
      handled
  | append sentMatchIndex =>
    rw [awaited] at handled inFlight
    refine @delivered _ _ _ _ _ [] inFlight fun net => ?_
    rw [Cluster.receive, if_pos member, List.append_nil]
    simp only [handled]
    rfl

end Steps

end QuorumDB.Raft
