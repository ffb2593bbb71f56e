import QuorumDB.Raft.Wire

/-!
Executions over connections. Each is an execution of the cluster whose network carries whole
packets and delivers none of them twice, and a connection that is not cut off brings request and
reply to their handlers.
-/

namespace QuorumDB.Raft
open Execution NetworkOrder Rpc

section Steps

variable {wire later : Wire} {cluster : Cluster} {past : List Cluster} {exchange : Exchange}

theorem Mirrors.acted (mirrors : Mirrors wire cluster) (run : Cluster.Reaches past cluster) {id : Int}
    (member : id ∈ wire.members) {node : RaftNode} {exchanges : List Exchange}
    (acts : ∃ action : NodeAction, action.Typed ∧ (wire.node id).act action = some node)
    (room : Wire.Roomy ⟨wire.members, Function.update wire.node id node, exchanges⟩) :
    ∀ other ∈ wire.members, (Function.update wire.node id node other).Fits := by
  intro other inside
  by_cases here : other = id
  · subst here
    obtain ⟨action, typed, acted⟩ := acts
    have short : (Function.update wire.node other node other).log.length < 2 ^ 63 := room.logs other inside
    rw [Function.update_self] at short ⊢
    have sound := node_sound run (mirrors.members.symm ▸ member)
    rw [mirrors.node] at sound
    exact RaftNode.act_fits (mirrors.fits other inside) sound ⟨typed, acted, short⟩
  · rw [Function.update_of_ne here]
    exact mirrors.fits other inside

theorem mirrors_local (run : Cluster.Reaches past cluster) (mirrors : Mirrors wire cluster) {id : Int}
    (member : id ∈ wire.members) {node : RaftNode} {exchanges : List Exchange} {move : Action}
    (acts : ∃ action : NodeAction, action.Typed ∧ (wire.node id).act action = some node)
    (moved : cluster.act move = some ((cluster.set id node).send (exchanges.filterMap Exchange.packet)))
    (once : move.isDuplicate = false) (built : ∀ exchange ∈ exchanges, exchange.Built wire.members)
    (room : Wire.Roomy ⟨wire.members, Function.update wire.node id node, wire.exchanges ++ exchanges⟩) :
    ∃ left after, Onward cluster left after ∧
      Mirrors ⟨wire.members, Function.update wire.node id node, wire.exchanges ++ exchanges⟩ after := by
  refine ⟨_, _, .one ⟨moved, once⟩, mirrors.members, ?_, ?_, ?_, room, mirrors.ids, mirrors.acted run member acts room⟩
  · change Function.update cluster.node id node = Function.update wire.node id node
    rw [mirrors.node]
  · rw [List.filterMap_append]
    exact mirrors.net.append_right _
  · intro exchange inside
    exact (List.mem_append.mp inside).elim (mirrors.built exchange) (built exchange)

theorem Mirrors.exchanged (mirrors : Mirrors wire cluster) {position : Nat} {node : Int → RaftNode} {after : Cluster}
    (members : after.members = cluster.members) (nodes : after.node = node)
    (net : after.net.Perm ((wire.exchanges.set position exchange).filterMap Exchange.packet)) (built : exchange.Built wire.members)
    (fits : ∀ id ∈ wire.members, (node id).Fits)
    (room : Wire.Roomy ⟨wire.members, node, wire.exchanges.set position exchange⟩) :
    Mirrors ⟨wire.members, node, wire.exchanges.set position exchange⟩ after := by
  refine ⟨members.trans mirrors.members, nodes, net, fun other inside => ?_, room, mirrors.ids, fits⟩
  rcases List.mem_or_eq_of_mem_set inside with old | rfl
  · exact mirrors.built other old
  · exact built

theorem mirrors_send (mirrors : Mirrors wire cluster) {position : Nat} {results : List Nat} (room : later.Roomy)
    (moved : wire.send position results = some later) : Mirrors later cluster := by
  obtain ⟨exchange, found, rest⟩ := Option.bind_eq_some_iff.mp moved
  obtain ⟨unsent, rest⟩ := Cluster.guarded rest
  obtain ⟨bytes, written, same⟩ := Option.bind_eq_some_iff.mp rest
  obtain rfl := Option.some.inj same
  have member := List.mem_of_getElem? found
  obtain ⟨caller, target, peer, sender, typed, made, -, -⟩ := mirrors.built exchange member
  obtain ⟨others, now, afterwards⟩ := Exchange.packets_set found
  refine mirrors.exchanged rfl mirrors.node ?_ ⟨caller, target, peer, sender, typed, made, ?_, ?_⟩ mirrors.fits room
  · have packet : exchange.packet = exchange.requestPacket := by
      rw [Exchange.packet, unsent]
    have still := afterwards { exchange with stage := .sent (sendAll results bytes).1, waits := (sendAll results bytes).2 }
    rw [packet] at now
    exact mirrors.net.trans (now.trans still.symm)
  · intro sent stage
    injection stage with same
    rw [← same]
    exact sendAll_frame (mirrors.room.requests exchange member) written
  · intro bytes reply stage
    cases stage

theorem mirrors_serve (run : Cluster.Reaches past cluster) (mirrors : Mirrors wire cluster) {position : Nat}
    {chunks : List Bytes} {results : List Nat} (room : later.Roomy) (moved : wire.serve position chunks results = some later) :
    ∃ left after, Onward cluster left after ∧ Mirrors later after := by
  obtain ⟨exchange, found, rest⟩ := Option.bind_eq_some_iff.mp moved
  have inside := List.mem_of_getElem? found
  have built := mirrors.built exchange inside
  have small := mirrors.room.requests exchange inside
  obtain ⟨others, now, afterwards⟩ := Exchange.packets_set found
  cases stage : exchange.stage with
  | unsent =>
    simp only [stage] at rest
    cases rest
  | served =>
    simp only [stage] at rest
    cases rest
  | sent bytes =>
    simp only [stage] at rest
    obtain ⟨⟨arrives, member⟩, rest⟩ := Cluster.guarded rest
    obtain ⟨⟨node, written⟩, ran, same⟩ := Option.bind_eq_some_iff.mp rest
    obtain rfl := Option.some.inj same
    have packet : exchange.packet = exchange.requestPacket := by
      rw [Exchange.packet, stage]
    have inFlight := mirrors.net.trans now
    rw [packet] at inFlight
    rcases handleConnection_cases built.typed small (built.outward bytes stage) arrives ran with
      ⟨rfl, rfl⟩ | ⟨reply, whole, handled, frames, rfl⟩
    · -- no request was received, and none can be any more
      obtain ⟨left, after, steps, members, nodes, net⟩ := discards inFlight
      have emptied : { exchange with stage := .served [] }.packet = none := by
        unfold Exchange.packet
        cases exchange.waits with
        | false => rfl
        | true => rfl
      have gone := afterwards { exchange with stage := .served [] }
      rw [emptied] at gone
      have same : Function.update wire.node exchange.peer (wire.node exchange.peer) = wire.node := Function.update_eq_self _ _
      refine ⟨left, after, steps, mirrors.exchanged members ?_ (net.trans gone.symm) ⟨built.caller, built.target, built.peer, built.sender, built.typed,
        built.made, ?_, ?_⟩ ?_ room⟩
      · exact nodes.trans (mirrors.node.trans same.symm)
      · intro sent impossible
        cases impossible
      · intro put reply stage received
        cases stage
        cases received
      · intro id inside
        change (Function.update wire.node exchange.peer (wire.node exchange.peer) id).Fits
        rw [same]
        exact mirrors.fits id inside
    · rw [← mirrors.node] at handled
      obtain ⟨left, after, steps, members, nodes, net⟩ :=
        delivers_request built small (mirrors.members.symm ▸ member) inFlight handled
      rw [mirrors.node] at handled nodes
      obtain ⟨acts, term, sender, length⟩ := built.served small handled
      have fits := mirrors.acted run member acts room
      have own := fits exchange.peer member
      rw [Function.update_self] at own
      have typed : Rpc.Typed reply := ⟨term ▸ own.currentTerm, sender ▸ own.nodeId⟩
      have limit : 13 + reply.payload.length < 2 ^ 32 := by
        rw [length]
        decide
      have front : (sendAll results whole).1 <+: frame reply := sendAll_frame limit frames
      have next : { exchange with stage := .served (sendAll results whole).1 }.Built wire.members := by
        refine ⟨built.caller, built.target, built.peer, built.sender, built.typed, built.made, ?_, ?_⟩
        · intro sent impossible
          cases impossible
        · intro put other stage received
          injection stage with same
          rw [← same] at received
          rw [(receiveMessage_sent typed limit front received).1]
          exact typed
      have put := afterwards { exchange with stage := .served (sendAll results whole).1 }
      rcases Exchange.packet_served typed length front with whole | cut
      · rw [whole] at put
        exact ⟨left, after, steps, mirrors.exchanged members nodes (net.trans put.symm) next fits room⟩
      · -- the reply was cut off, or nobody waits for it
        rw [cut] at put
        obtain ⟨more, last, dropped, same, still, fewer⟩ := @discards after others (some (exchange.replyPacket reply)) net
        exact ⟨more ++ left, last, steps.trans dropped,
          mirrors.exchanged (same.trans members) (still.trans nodes) (fewer.trans put.symm) next fits room⟩

theorem mirrors_collect (run : Cluster.Reaches past cluster) (mirrors : Mirrors wire cluster) {position : Nat}
    {chunks : List Bytes} (room : later.Roomy) (moved : wire.collect position chunks = some later) :
    ∃ left after, Onward cluster left after ∧ Mirrors later after := by
  obtain ⟨exchange, found, rest⟩ := Option.bind_eq_some_iff.mp moved
  obtain ⟨⟨sent, waits, arrives, member⟩, rest⟩ := Cluster.guarded rest
  have inside := List.mem_of_getElem? found
  have built := mirrors.built exchange inside
  obtain ⟨others, now, afterwards⟩ := Exchange.packets_set found
  have next : { exchange with waits := false }.Built wire.members :=
    ⟨built.caller, built.target, built.peer, built.sender, built.typed, built.made, built.outward, built.replied⟩
  have inFlight := mirrors.net.trans now
  have finished := afterwards { exchange with waits := false }
  rcases receiveFrom_arrives arrives with nothing | ⟨reply, remains, received, arrived⟩
  · rw [nothing] at rest
    obtain rfl := Option.some.inj rest
    rcases Exchange.sent_or_served sent with ⟨bytes, stage⟩ | ⟨bytes, stage⟩
    · have packet : exchange.packet = { exchange with waits := false }.packet := by
        unfold Exchange.packet
        rw [stage]
        rfl
      rw [packet] at inFlight
      exact ⟨[], cluster, .none, mirrors.exchanged rfl mirrors.node (inFlight.trans finished.symm) next mirrors.fits room⟩
    · have emptied : { exchange with waits := false }.packet = none := by
        unfold Exchange.packet
        rw [stage]
        rfl
      rw [emptied] at finished
      obtain ⟨left, after, steps, members, nodes, net⟩ := discards inFlight
      exact ⟨left, after, steps,
        mirrors.exchanged members (nodes.trans mirrors.node) (net.trans finished.symm) next mirrors.fits room⟩
  · rw [received] at rest
    obtain ⟨node, handled, same⟩ := Option.bind_eq_some_iff.mp rest
    obtain rfl := Option.some.inj same
    rcases Exchange.sent_or_served sent with ⟨bytes, stage⟩ | ⟨bytes, stage⟩
    · rw [Exchange.homeward, stage] at arrived
      cases arrived
    · rw [Exchange.homeward, stage] at arrived
      have packet : exchange.packet = some (exchange.replyPacket reply) := by
        rw [Exchange.packet, stage]
        simp only [waits, if_true, arrived, Option.map_some]
      have emptied : { exchange with waits := false }.packet = none := by
        unfold Exchange.packet
        rw [stage]
        rfl
      rw [packet] at inFlight
      rw [emptied] at finished
      rw [← mirrors.node] at handled
      obtain ⟨left, after, steps, members, nodes, net⟩ := delivers_reply (mirrors.members.symm ▸ member) inFlight handled
      rw [mirrors.node] at handled nodes
      have acts := built.collects (built.replied bytes reply stage arrived) handled
      exact ⟨left, after, steps, mirrors.exchanged members nodes (net.trans finished.symm) next
        (mirrors.acted run member acts room) room⟩

theorem mirrors_quiet (run : Cluster.Reaches past cluster) (mirrors : Mirrors wire cluster) {id : Int}
    (member : id ∈ wire.members) {node : RaftNode} {move : Action}
    (acts : ∃ action : NodeAction, action.Typed ∧ (wire.node id).act action = some node)
    (moved : cluster.act move = some (cluster.set id node)) (once : move.isDuplicate = false)
    (room : (wire.set id node).Roomy) : ∃ left after, Onward cluster left after ∧ Mirrors (wire.set id node) after := by
  have quiet : cluster.act move = some ((cluster.set id node).send (([] : List Exchange).filterMap Exchange.packet)) := by
    rw [moved, Cluster.send, List.filterMap_nil, List.append_nil]
  have same : wire.set id node = ⟨wire.members, Function.update wire.node id node, wire.exchanges ++ []⟩ := by
    rw [List.append_nil]
    rfl
  rw [same] at room ⊢
  exact mirrors_local run mirrors member acts quiet once (fun _ impossible => absurd impossible List.not_mem_nil) room

theorem mirrors_startElection (run : Cluster.Reaches past cluster) (mirrors : Mirrors wire cluster) {id : Int}
    (member : id ∈ wire.members) {node : RaftNode} {requests : List (Int × RpcMessage)}
    (ran : (wire.node id).startElection = some (node, requests))
    (room : Wire.Roomy ⟨wire.members, Function.update wire.node id node, wire.exchanges ++ requests.map (Exchange.forVote id)⟩) :
    ∃ left after, Onward cluster left after ∧
      Mirrors ⟨wire.members, Function.update wire.node id node, wire.exchanges ++ requests.map (Exchange.forVote id)⟩ after := by
  have inside : id ∈ cluster.members := mirrors.members.symm ▸ member
  have known := membership run.loosely
  have acts : ∃ action : NodeAction, action.Typed ∧ (wire.node id).act action = some node :=
    ⟨.startElection, trivial, congrArg (Option.map Prod.fst) ran⟩
  have packets : (requests.map (Exchange.forVote id)).filterMap Exchange.packet =
      requests.map fun request => .voteRequest request.1 request.2 := by
    rw [List.filterMap_map]
    exact congrFun List.filterMap_eq_map' requests
  have moved : cluster.act (.startElection id) =
      some ((cluster.set id node).send ((requests.map (Exchange.forVote id)).filterMap Exchange.packet)) := by
    rw [packets, Cluster.act, if_pos inside, mirrors.node, ran]
    rfl
  refine mirrors_local run mirrors member acts moved rfl ?_ room
  · intro exchange listed
    obtain ⟨request, asked, rfl⟩ := List.mem_map.mp listed
    have fits := mirrors.acted run member acts room id member
    rw [Function.update_self] at fits
    have identity := known.identity id inside
    have peers := known.peers id inside
    rw [mirrors.node] at identity peers
    rcases RaftNode.startElection_cases ran with ⟨-, rfl⟩ | ⟨-, -, -, ⟨-, -, rfl⟩ | ⟨rfl, rfl⟩⟩
    · cases asked
    · cases asked
    · obtain ⟨peer, targeted, rfl⟩ := List.mem_map.mp asked
      have target : peer ∈ wire.members := mirrors.members ▸ ((peers peer).mp targeted).1
      exact ⟨member, target, mirrors.ids peer target, identity, ⟨fits.currentTerm, fits.nodeId⟩, .inl ⟨rfl, rfl⟩,
        (fun _ impossible => by cases impossible), fun _ _ impossible => by cases impossible⟩

theorem mirrors_sendHeartbeats (run : Cluster.Reaches past cluster) (mirrors : Mirrors wire cluster) {id : Int}
    (member : id ∈ wire.members) {requests : List (Int × AppendEntriesArgs)}
    (ran : (wire.node id).sendHeartbeats = some requests)
    (room : Wire.Roomy ⟨wire.members, wire.node, wire.exchanges ++ requests.map (Exchange.forAppend (wire.node id) id)⟩) :
    ∃ left after, Onward cluster left after ∧
      Mirrors ⟨wire.members, wire.node, wire.exchanges ++ requests.map (Exchange.forAppend (wire.node id) id)⟩ after := by
  have inside : id ∈ cluster.members := mirrors.members.symm ▸ member
  have known := membership run.loosely
  have fits := mirrors.fits id member
  have still : Function.update wire.node id (wire.node id) = wire.node := Function.update_eq_self _ _
  have here : cluster.set id (wire.node id) = cluster := by
    rw [Cluster.set, mirrors.node, still, ← mirrors.node]
  have acts : ∃ action : NodeAction, action.Typed ∧ (wire.node id).act action = some (wire.node id) :=
    ⟨.sendHeartbeats, trivial, congrArg (Option.map fun _ => wire.node id) ran⟩
  have made : ∀ request ∈ requests, ∃ peer ∈ (wire.node id).peers, (wire.node id).heartbeatFor peer = some request := by
    intro request listed
    unfold RaftNode.sendHeartbeats at ran
    split_ifs at ran
    · obtain rfl := Option.some.inj ran
      cases listed
    · exact Cluster.mem_of_mapM ran listed
  have short := room.logs id member
  have small : ∀ request ∈ requests, 13 + (serializeAppendEntriesPayload request.2).length < 2 ^ 32 := fun request listed =>
    room.requests (Exchange.forAppend (wire.node id) id request)
      (List.mem_append_right _ (List.mem_map_of_mem listed))
  have typed : ∀ request ∈ requests, request.2.Typed := fun request listed => by
    obtain ⟨peer, -, built⟩ := made request listed
    exact (fits.request short built).2.1
  have packets : (requests.map (Exchange.forAppend (wire.node id) id)).filterMap Exchange.packet =
      Cluster.heartbeatPackets (wire.node id) requests := by
    have each : requests.filterMap (Exchange.packet ∘ Exchange.forAppend (wire.node id) id) = requests.filterMap fun request =>
        some (.appendRequest request.1 (wire.node id).currentTerm (wire.node id).nodeId request.2) :=
      List.filterMap_congr fun request listed => Exchange.packet_forAppend id (typed request listed) (small request listed)
    rw [List.filterMap_map, each]
    exact congrFun List.filterMap_eq_map' requests
  have moved : cluster.act (.sendHeartbeats id) = some ((cluster.set id (wire.node id)).send
      ((requests.map (Exchange.forAppend (wire.node id) id)).filterMap Exchange.packet)) := by
    rw [packets, here, Cluster.act, if_pos inside, mirrors.node, ran]
    rfl
  have done := mirrors_local run mirrors member acts moved rfl ?_ (still.symm ▸ room)
  · rw [still] at done
    exact done
  · intro exchange listed
    obtain ⟨request, asked, rfl⟩ := List.mem_map.mp listed
    obtain ⟨peer, targeted, built⟩ := made request asked
    have identity := known.identity id inside
    have peers := known.peers id inside
    rw [mirrors.node] at identity peers
    have target : peer ∈ wire.members := mirrors.members ▸ ((peers peer).mp targeted).1
    obtain ⟨named, args, -⟩ := fits.request short built
    obtain rfl := named
    obtain ⟨-, pre, prev, whole, index, -⟩ := heartbeatFor_served built
    have sent : Signed 64 (request.2.prevLogIndex + request.2.entries.length) := by
      rw [← whole, List.length_append, List.length_cons] at short
      unfold Signed
      omega
    exact ⟨member, target, mirrors.ids request.1 target, identity, ⟨fits.currentTerm, fits.nodeId⟩,
      .inr ⟨request.2, args, by omega, sent, rfl, rfl, rfl⟩, (fun _ impossible => by cases impossible),
      fun _ _ impossible => by cases impossible⟩

/-- Every step over the connections is answered by some steps of the cluster, or none. -/
theorem mirrors_step (run : Cluster.Reaches past cluster) (mirrors : Mirrors wire cluster) {action : WireAction}
    (step : wire.Step action later) : ∃ left after, Onward cluster left after ∧ Mirrors later after := by
  obtain ⟨moved, room⟩ := step
  have inside : ∀ id ∈ wire.members, id ∈ cluster.members := fun id member => mirrors.members.symm ▸ member
  cases action with
  | start id =>
    obtain ⟨member, same⟩ := Cluster.guarded moved
    obtain rfl := Option.some.inj same
    refine @mirrors_quiet _ _ _ run mirrors id member _ (.start id) ⟨.start, trivial, rfl⟩ ?_ rfl room
    rw [Cluster.act, if_pos (inside id member), mirrors.node]
  | stop id =>
    obtain ⟨member, same⟩ := Cluster.guarded moved
    obtain rfl := Option.some.inj same
    refine @mirrors_quiet _ _ _ run mirrors id member _ (.stop id) ⟨.stop, trivial, rfl⟩ ?_ rfl room
    rw [Cluster.act, if_pos (inside id member), mirrors.node]
  | propose id command =>
    obtain ⟨member, same⟩ := Cluster.guarded moved
    obtain rfl := Option.some.inj same
    refine @mirrors_quiet _ _ _ run mirrors id member _ (.propose id command) ⟨.propose command, trivial, rfl⟩ ?_ rfl room
    rw [Cluster.act, if_pos (inside id member), mirrors.node]
  | startElection id =>
    obtain ⟨member, rest⟩ := Cluster.guarded moved
    obtain ⟨⟨node, requests⟩, ran, same⟩ := Option.bind_eq_some_iff.mp rest
    obtain rfl := Option.some.inj same
    exact mirrors_startElection run mirrors member ran room
  | sendHeartbeats id =>
    obtain ⟨member, rest⟩ := Cluster.guarded moved
    obtain ⟨requests, ran, same⟩ := Option.bind_eq_some_iff.mp rest
    obtain rfl := Option.some.inj same
    exact mirrors_sendHeartbeats run mirrors member ran room
  | send position results => exact ⟨[], cluster, .none, mirrors_send mirrors room moved⟩
  | serve position chunks results => exact mirrors_serve run mirrors room moved
  | collect position chunks => exact mirrors_collect run mirrors room moved

theorem mirrors_initial {fresh : Wire} (initial : fresh.Initial) :
    Cluster.Initial ⟨fresh.members, fresh.node, []⟩ ∧ Mirrors fresh ⟨fresh.members, fresh.node, []⟩ := by
  obtain ⟨begins, none, ids⟩ := initial
  have nodes := begins.2.2.2
  refine ⟨begins, rfl, rfl, ?_, ?_, ⟨fun id member => ?_, ?_⟩, ids, fun id member => ?_⟩
  · rw [none]
    exact .refl _
  · rw [none]
    exact fun exchange impossible => absurd impossible List.not_mem_nil
  · obtain ⟨peers, onCommit, shape, -⟩ := nodes id member
    change fresh.node id = _ at shape
    rw [shape]
    exact (by decide : 1 < 2 ^ 63)
  · rw [none]
    exact fun exchange impossible => absurd impossible List.not_mem_nil
  · obtain ⟨peers, onCommit, shape, -⟩ := nodes id member
    change fresh.node id = _ at shape
    rw [shape]
    refine ⟨ids id member, (by decide : Signed 32 0), (by decide : Signed 64 0), fun entry inside => ?_⟩
    rw [List.mem_singleton.mp inside]
    exact ⟨by decide, by decide⟩

theorem mirrored {past : List Wire} (run : Wire.Reaches past wire) :
    ∃ older cluster, Cluster.ReachesWhen Cluster.NoDuplicate older cluster ∧ Mirrors wire cluster ∧
      ∀ earlier ∈ past, ∃ before ∈ cluster :: older, Mirrors earlier before :=
  run.simulated (fun _ initial => ⟨_, mirrors_initial initial⟩)
    fun reached mirrors step => mirrors_step (Cluster.ReachesWhen.reaches reached) mirrors step

/-- Every execution over connections, cut into pieces, cut off, timed out or refused anywhere, is an
execution of the cluster in which every packet is delivered at most once: the nodes pass through
the same states. -/
theorem Wire.refines_cluster {past : List Wire} (run : Wire.Reaches past wire) :
    ∃ older cluster, Cluster.ReachesWhen Cluster.NoDuplicate older cluster ∧
      cluster.members = wire.members ∧ cluster.node = wire.node ∧
      cluster.net.Perm (wire.exchanges.filterMap Exchange.packet) ∧
      ∀ earlier ∈ past, ∃ before ∈ cluster :: older, before.members = earlier.members ∧ before.node = earlier.node := by
  obtain ⟨older, cluster, reached, mirrors, seen⟩ := mirrored run
  refine ⟨older, cluster, reached, mirrors.members, mirrors.node, mirrors.net, fun earlier member => ?_⟩
  obtain ⟨before, inside, same⟩ := seen earlier member
  exact ⟨before, inside, same.members, same.node⟩

theorem receiveFrom_frame {message : RpcMessage} (typed : Rpc.Typed message) (small : 13 + message.payload.length ≤ maxMessageSize)
    {chunks : List Bytes} (delivers : Delivers chunks (frame message)) : ∃ left, receiveFrom chunks = some (message, left) := by
  obtain ⟨left, same, -⟩ := receiveFrom_eq delivers
  rw [receiveMessage_frame typed small] at same
  exact ⟨left, same⟩

/-- A request within the size limit has a reply from the peer's handler, and that reply is handled by the caller.
So it goes where both are sent whole, in whatever pieces the connection takes and delivers them. -/
theorem Wire.exchange_completes {past : List Wire} (run : Wire.Reaches past wire) {position : Nat}
    (found : wire.exchanges[position]? = some exchange) (unsent : exchange.stage = .unsent)
    (small : 13 + exchange.request.payload.length ≤ maxMessageSize) :
    ∃ served reply collected, (wire.node exchange.peer).handleMessage exchange.request = some (served, reply) ∧
      exchange.handleReply (Function.update wire.node exchange.peer served exchange.caller) reply = some collected ∧
      (served.log.length < 2 ^ 63 → ∀ results back chunks pieces, (sendAll results (frame exchange.request)).2 = true →
        Delivers chunks (frame exchange.request) → (sendAll back (frame reply)).2 = true → Delivers pieces (frame reply) →
        ∃ one two three, wire.act (.send position results) = some one ∧ one.act (.serve position chunks back) = some two ∧
          two.act (.collect position pieces) = some three ∧
          three.node = Function.update (Function.update wire.node exchange.peer served) exchange.caller collected) := by
  obtain ⟨older, cluster, reached, mirrors, -⟩ := mirrored run
  have inside := List.mem_of_getElem? found
  have below : 13 + exchange.request.payload.length < 2 ^ 32 := Nat.lt_of_le_of_lt small (by decide)
  have built := mirrors.built exchange inside
  have sound : ∀ id ∈ wire.members, (wire.node id).Sound := by
    intro id member
    have known := node_sound (Cluster.ReachesWhen.reaches reached) (mirrors.members.symm ▸ member)
    rw [mirrors.node] at known
    exact known
  obtain ⟨served, reply, handled⟩ := built.answered below (sound exchange.peer built.target)
  obtain ⟨acts, term, sender, length⟩ := built.served below handled
  have caller : (Function.update wire.node exchange.peer served exchange.caller).Sound := by
    by_cases same : exchange.caller = exchange.peer
    · obtain ⟨action, -, acted⟩ := acts
      rw [same, Function.update_self]
      exact (RaftNode.act_sound (sound exchange.peer built.target) acted).1
    · rw [Function.update_of_ne same]
      exact sound exchange.caller built.caller
  obtain ⟨collected, taken⟩ := exchange.handleReply_sound caller reply
  refine ⟨served, reply, collected, handled, taken, ?_⟩
  intro room results back chunks pieces sent arrives answered returns
  have limit : 13 + reply.payload.length < 2 ^ 32 := by
    rw [length]
    decide
  have typed : Rpc.Typed reply := by
    obtain ⟨action, actionTyped, acted⟩ := acts
    have fits := RaftNode.act_fits (mirrors.fits exchange.peer built.target) (sound exchange.peer built.target)
      ⟨actionTyped, acted, room⟩
    exact ⟨term ▸ fits.currentTerm, sender ▸ fits.nodeId⟩
  have whole := (sendAll_front results (frame exchange.request)).2.mp sent
  have wholeBack := (sendAll_front back (frame reply)).2.mp answered
  obtain ⟨left, received⟩ := receiveFrom_frame built.typed small arrives
  obtain ⟨right, returned⟩ := receiveFrom_frame typed (by rw [length]; decide) returns
  have first : wire.act (.send position results) =
      some (wire.setExchange position { exchange with stage := .sent (frame exchange.request), waits := true }) := by
    simp only [act, send, found, unsent, serializeRpcMessage_eq below, whole, sent, Option.bind_eq_bind, Option.bind_some, if_true]
  have placed : ∀ other, (wire.exchanges.set position other)[position]? = some other := fun other =>
    List.getElem?_set_self (TermLog.lt_of_getElem? found)
  have arrived : Arrives chunks (frame exchange.request) := ⟨arrives.1 ▸ List.prefix_refl _, arrives.2⟩
  have cameBack : Arrives pieces (frame reply) := ⟨returns.1 ▸ List.prefix_refl _, returns.2⟩
  have connection : handleConnection RaftNode.handleMessage (wire.node exchange.peer) chunks back = some (served, frame reply) := by
    simp only [handleConnection, received, handled, serializeRpcMessage_eq limit, wholeBack, Option.bind_eq_bind, Option.bind_some]
  refine ⟨_, (wire.set exchange.peer served).setExchange position { exchange with stage := .served (frame reply), waits := true },
    ((wire.set exchange.peer served).set exchange.caller collected).setExchange position
      { exchange with stage := .served (frame reply), waits := false }, first, ?_, ?_, rfl⟩
  · simp only [act, serve, setExchange, placed, Option.bind_eq_bind, Option.bind_some, arrived, built.target, and_self, if_true,
      connection, set, List.set_set]
  · have reads : receiveFrom pieces = some (reply, right) := returned
    have handles : ({ exchange with stage := .served (frame reply), waits := true } : Exchange).handleReply
        (Function.update wire.node exchange.peer served exchange.caller) reply = some collected := taken
    simp only [act, collect, setExchange, placed, Option.bind_eq_bind, Option.bind_some, Exchange.homeward, cameBack, built.caller,
      reads, set, List.set_set, handles, ne_eq, reduceCtorEq, not_false_eq_true, and_self, if_true]

end Steps

namespace Wire

variable {visited : List Wire × Wire} {actions : List WireAction}

instance (wire : Wire) : Decidable wire.Roomy :=
  decidable_of_iff ((∀ id ∈ wire.members, (wire.node id).log.length < 2 ^ 63) ∧
    ∀ exchange ∈ wire.exchanges, 13 + exchange.request.payload.length < 2 ^ 32)
    ⟨fun both => ⟨both.1, both.2⟩, fun room => ⟨room.logs, room.requests⟩⟩

/-- A step that leaves room. -/
def actRoomy (wire : Wire) (action : WireAction) : Option Wire :=
  (wire.act action).bind fun later => if later.Roomy then some later else none

theorem initial_replay {fresh : Wire} (initial : fresh.Initial) (played : replay actRoomy fresh actions = some visited) :
    Reaches visited.1 visited.2 := by
  have run := Run.append_replay (.start initial) played
  rw [List.append_nil] at run
  refine run.mono fun state action later step => ⟨action, ?_⟩
  obtain ⟨after, moved, rest⟩ := Option.bind_eq_some_iff.mp step
  obtain ⟨room, same⟩ := Cluster.guarded rest
  obtain rfl := Option.some.inj same
  exact ⟨moved, room⟩

def trio : Wire := ⟨[1, 2, 3], Cluster.trio.node, []⟩

theorem trio_initial : trio.Initial := ⟨Cluster.trio_initial, rfl, by decide⟩

def asking : List WireAction := [.start 1, .start 2, .startElection 1]

def voteFrame : Bytes := frame ⟨.requestVote, 1, 1, []⟩
def grantFrame : Bytes := frame ⟨.requestVoteReply, 1, 2, yes⟩

/-- The request comes in three pieces and the reply in two. -/
theorem refines_cluster_trio : ∃ past wire older cluster, Reaches past wire ∧ (wire.node 1).state = .leader ∧
    Cluster.ReachesWhen Cluster.NoDuplicate older cluster ∧ cluster.node = wire.node := by
  have won : ∃ visited ∈ replay actRoomy trio (asking ++ [.send 0 [3, 14],
      .serve 0 [voteFrame.take 2, (voteFrame.drop 2).take 9, voteFrame.drop 11] [18],
      .collect 0 [grantFrame.take 4, grantFrame.drop 4]]), (visited.2.node 1).state = .leader := by
    decide +kernel
  obtain ⟨visited, played, leads⟩ := won
  have run := initial_replay trio_initial played
  obtain ⟨older, cluster, reached, -, same, -⟩ := refines_cluster run
  exact ⟨_, _, older, cluster, run, leads, reached, same⟩

theorem exchange_completes_trio : ∃ past wire one two three, Reaches past wire ∧
    wire.act (.send 0 [3, 14]) = some one ∧ one.act (.serve 0 [voteFrame.take 2, voteFrame.drop 2] [18]) = some two ∧
    two.act (.collect 0 [grantFrame]) = some three ∧ (three.node 1).state = .leader := by
  have asked : ∃ visited ∈ replay actRoomy trio asking, ∃ exchange ∈ visited.2.exchanges[0]?, exchange.stage = .unsent ∧
      exchange.caller = 1 ∧ exchange.peer = 2 ∧ exchange.request = ⟨.requestVote, 1, 1, []⟩ ∧
      ∃ served ∈ (visited.2.node 2).handleMessage ⟨.requestVote, 1, 1, []⟩, served.2 = ⟨.requestVoteReply, 1, 2, yes⟩ ∧
      served.1.log.length = 1 ∧ ∃ collected ∈ exchange.handleReply (Function.update visited.2.node 2 served.1 1)
        ⟨.requestVoteReply, 1, 2, yes⟩, collected.state = .leader := by
    decide +kernel
  obtain ⟨visited, played, ⟨from_node, to_node, awaited, sent, stage, waits⟩, found, unsent, caller, peer, request,
    ⟨served, reply⟩, handled, same, length, collected, taken, leads⟩ := asked
  obtain rfl : from_node = 1 := caller
  obtain rfl : to_node = 2 := peer
  obtain rfl : sent = ⟨.requestVote, 1, 1, []⟩ := request
  obtain rfl : reply = ⟨.requestVoteReply, 1, 2, yes⟩ := same
  have run := initial_replay trio_initial played
  have small : 13 + ([] : Bytes).length ≤ maxMessageSize := by decide
  have room : served.log.length < 2 ^ 63 := Nat.lt_of_le_of_lt length.le (by decide)
  have sends : (sendAll [3, 14] voteFrame).2 = true ∧ (sendAll [18] grantFrame).2 = true := by decide
  have pieces : Rpc.Delivers [voteFrame.take 2, voteFrame.drop 2] voteFrame := ⟨by decide, by decide⟩
  have whole : Rpc.Delivers [grantFrame] grantFrame := ⟨by decide, by decide⟩
  obtain ⟨_, _, _, ran, collects, completes⟩ := exchange_completes run found unsent small
  obtain ⟨rfl, rfl⟩ := Prod.mk.inj (Option.some.inj (handled.symm.trans ran))
  obtain rfl := Option.some.inj (taken.symm.trans collects)
  obtain ⟨one, two, three, first, second, third, nodes⟩ := completes room _ _ _ _ sends.1 pieces sends.2 whole
  refine ⟨_, _, one, two, three, run, first, second, third, ?_⟩
  rw [nodes, Function.update_self]
  exact leads

end Wire

end QuorumDB.Raft
