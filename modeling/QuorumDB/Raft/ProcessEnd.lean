import QuorumDB.Raft.ProcessStop

/-!
Stop of a node returns. What its threads have left to do goes down with each of their steps, whoever
is scheduled, and some thread can always go on without an answer from a peer.
-/

namespace QuorumDB.Raft
open Execution Rpc Finset

def ProcessStep.outside : ProcessStep → Bool
  | .pass _ | .direct _ => true
  | .server step => step.outside
  | _ => false

/-- What the thread of a request has left to do. -/
def CallStage.effort : CallStage → Nat
  | .calling => 3
  | .replied => 2
  | .finished => 1
  | .unborn | .exited => 0

/-- The same of the loop of a node that has been stopped. A thread that it starts runs, is joined, and
is one more in the list. -/
def LoopStage.effort (peers : Nat) : LoopStage → Nat
  | .returned => 0
  | .checking | .waiting .. => 1
  | .electing | .beating | .calling => 2
  | .spawning left => 5 * left + 2
  | .reaping left => left.length + 5 * peers + 3

/-- The same of Stop once the server has been told, with that many threads in the list. -/
def OwnerStage.effort (threads : Nat) : OwnerStage → Nat
  | .idle | .launching | .halting => 0
  | .stopping => threads + 4
  | .joiningLoop => threads + 3
  | .swapping => threads + 2
  | .joiningCalls left => left.length + 1

theorem OwnerStage.effort_mono (owner : OwnerStage) {fewer more : Nat} (less : fewer ≤ more) :
    owner.effort fewer ≤ owner.effort more := by
  cases owner <;> simp only [OwnerStage.effort] <;> omega

theorem OwnerStage.effort_succ (owner : OwnerStage) (threads : Nat) : owner.effort (threads + 1) ≤ owner.effort threads + 1 := by
  cases owner <;> simp only [OwnerStage.effort] <;> omega

def OwnerStage.ends : OwnerStage → Bool
  | .stopping | .joiningLoop | .swapping | .joiningCalls _ => true
  | _ => false

theorem OwnerStage.ends_apart {owner other : OwnerStage} (stops : owner.ends = true) (apart : other.ends = false) : owner ≠ other := by
  rintro rfl
  cases apart.symm.trans stops

namespace Process

def unasked (process : Process) : Finset Nat :=
  (range process.server.accepted).filter fun serial => process.server.stage serial = .serving ∧ serial ∉ process.handled

/-- Whether a thread may wait for a peer before this step. -/
def awaitsPeer (process : Process) : ProcessStep → Bool
  | .request .. | .reply .. => true
  | .server step => process.server.awaitsPeer step
  | _ => false

/-- The most steps until Stop returns. -/
def effort (process : Process) : Nat :=
  2 * process.server.effort + process.unasked.card + process.loop.elim 0 (LoopStage.effort process.node.peers.length) +
    (∑ call ∈ range process.spawned, (process.stage call).effort) + process.owner.effort process.rpcThreads.length

variable {process later : Process} {step : ProcessStep} {past : List Process}

theorem mem_unasked (known : process.server.Sound) {serial : Nat} :
    serial ∈ process.unasked ↔ process.server.stage serial = .serving ∧ serial ∉ process.handled := by
  unfold unasked
  rw [mem_filter, mem_range]
  apply and_iff_right_of_imp
  rintro ⟨serves, -⟩
  by_contra outside
  have unborn := known.unborn serial (not_lt.mp outside)
  cases unborn.symm.trans serves

theorem unasked_server (known : process.server.Sound) {step : ServerStep} {server : RpcServer}
    (turn : RpcServer.Turn process.server step server) :
    ({ process with server := server } : Process).unasked.card ≤ process.unasked.card + if !step.outside then 1 else 0 := by
  have served : ∀ {serial : Nat}, serial ∈ ({ process with server := server } : Process).unasked →
      server.stage serial = .serving ∧ serial ∉ process.handled := fun member => (mem_filter.mp member).2
  rcases turn.serving with fewer | ⟨serial, own, more⟩
  · apply le_add_right
    apply card_le_card
    intro serial member
    obtain ⟨serves, first⟩ := served member
    exact (mem_unasked known).mpr ⟨fewer serial serves, first⟩
  · rw [own]
    apply le_trans (card_le_card _) (card_insert_le serial process.unasked)
    intro other member
    obtain ⟨serves, first⟩ := served member
    rcases more other serves with before | same
    · exact mem_insert_of_mem ((mem_unasked known).mpr ⟨before, first⟩)
    · exact mem_insert.mpr (.inl same)

theorem spends_server (known : process.Sound) (stops : process.owner.ends = true) {step : ServerStep} {server : RpcServer}
    (inner : step.byOwner = false) (turn : RpcServer.Turn process.server step server) :
    2 * server.effort + ({ process with server := server } : Process).unasked.card + (if !step.outside then 1 else 0) ≤
      2 * process.server.effort + process.unasked.card := by
  have asked := unasked_server known.server turn
  by_cases idle : process.server.stop = .idle
  · have halted : process.server.running = false := by
      have rests := known.quiet (OwnerStage.ends_apart stops rfl) (OwnerStage.ends_apart stops rfl)
      exact (known.alike (OwnerStage.ends_apart stops rfl)).trans rests
    obtain ⟨out, same⟩ := (known.server.gone idle halted).still idle turn inner
    rw [out] at asked ⊢
    rw [same]
    simp only [Bool.not_true, Bool.false_eq_true, if_false, Nat.add_zero] at asked ⊢
    omega
  · have spent := turn.spends known.server idle
    split_ifs at * <;> omega

theorem effort_setOwner (process : Process) (owner : OwnerStage) :
    (process.setOwner owner).effort + process.owner.effort process.rpcThreads.length =
      process.effort + owner.effort process.rpcThreads.length := by
  have same : (process.setOwner owner).unasked = process.unasked := rfl
  unfold effort
  rw [same]
  simp only [setOwner]
  omega

theorem effort_setLoop (process : Process) (loop : Option LoopStage) :
    (process.setLoop loop).effort + process.loop.elim 0 (LoopStage.effort process.node.peers.length) =
      process.effort + loop.elim 0 (LoopStage.effort process.node.peers.length) := by
  have same : (process.setLoop loop).unasked = process.unasked := rfl
  unfold effort
  rw [same]
  simp only [setLoop]
  omega

theorem spends_loop {stage next : LoopStage} (loops : process.loop = some stage)
    (less : next.effort process.node.peers.length + 1 ≤ stage.effort process.node.peers.length) :
    (process.setLoop (some next)).effort + 1 ≤ process.effort := by
  have spent := effort_setLoop process (some next)
  rw [loops] at spent
  simp only [Option.elim_some] at spent
  omega

theorem effort_setStage {call : Nat} (inside : call < process.spawned) (next : CallStage) :
    (process.setStage call next).effort + (process.stage call).effort = process.effort + next.effort := by
  have same : (process.setStage call next).unasked = process.unasked := rfl
  have sum := sum_update CallStage.effort process.stage inside next
  unfold effort
  rw [same]
  simp only [setStage]
  omega

theorem map_notify_effort (loop : Option LoopStage) (peers : Nat) :
    (loop.map LoopStage.notify).elim 0 (LoopStage.effort peers) = loop.elim 0 (LoopStage.effort peers) := by
  cases loop with
  | none => rfl
  | some stage => cases stage <;> rfl

theorem effort_replaceNode {action : NodeAction} {timeout : Int} {node : RaftNode} (peers : node.peers = process.node.peers) :
    (process.replaceNode action timeout node).effort = process.effort := by
  have same : (process.replaceNode action timeout node).unasked = process.unasked := rfl
  have loop : (process.replaceNode action timeout node).loop.elim 0 (LoopStage.effort node.peers.length) =
      process.loop.elim 0 (LoopStage.effort process.node.peers.length) := by
    rw [peers]
    rcases process.replaceNode_loop action timeout node with same | notified
    · rw [same]
    · rw [notified, map_notify_effort]
  unfold effort
  rw [same, show (process.replaceNode action timeout node).node = node from rfl, loop]
  rfl

theorem spends_owner {owner : OwnerStage}
    (less : owner.effort process.rpcThreads.length + 1 ≤ process.owner.effort process.rpcThreads.length) :
    (process.setOwner owner).effort + 1 ≤ process.effort := by
  have spent := effort_setOwner process owner
  omega

theorem spends_joinLoop (joins : process.owner = .joiningLoop) :
    ((process.setLoop none).setOwner .swapping).effort + 1 ≤ process.effort := by
  have first := effort_setLoop process none
  have second := effort_setOwner (process.setLoop none) .swapping
  rw [show (process.setLoop none).owner = process.owner from rfl, joins] at second
  simp only [OwnerStage.effort, Option.elim_none, setLoop] at first second
  simp only [setLoop]
  omega

theorem spends_swapRpcThreads (swaps : process.owner = .swapping) :
    ({ process with rpcThreads := [] }.setOwner (.joiningCalls process.rpcThreads)).effort + 1 ≤ process.effort := by
  have same : (({ process with rpcThreads := [] } : Process).setOwner (.joiningCalls process.rpcThreads)).unasked = process.unasked := rfl
  unfold effort
  rw [same, swaps]
  simp only [setOwner, OwnerStage.effort]
  omega

/-- A request costs the connection its turn; the handler leaves the rest as it was. -/
theorem spends_request (known : process.server.Sound) {serial : Nat} {action : NodeAction} {timeout : Int} {node : RaftNode}
    (kind : action.isRequest = true) (serves : process.server.stage serial = .serving) (first : serial ∉ process.handled)
    (acted : process.node.act action = some node) :
    ({ process.replaceNode action timeout node with handled := insert serial process.handled } : Process).effort + 1 ≤
      process.effort := by
  have peers := (RaftNode.act_fixed acted (NodeAction.inner (.inl kind))).2
  have same := @effort_replaceNode process action timeout node peers
  have before : serial ∈ process.unasked := (mem_unasked known).mpr ⟨serves, first⟩
  have after : ({ process.replaceNode action timeout node with handled := insert serial process.handled } : Process).unasked ⊆
      process.unasked.erase serial := by
    intro other member
    obtain ⟨waits, later⟩ := (mem_filter.mp member).2
    obtain ⟨apart, unhandled⟩ := not_or.mp (fun same => later (mem_insert.mpr same))
    exact mem_erase.mpr ⟨apart, (mem_unasked known).mpr ⟨waits, unhandled⟩⟩
  have fewer := card_le_card after
  rw [card_erase_of_mem before] at fewer
  have some := card_pos.mpr ⟨serial, before⟩
  have unchanged : (process.replaceNode action timeout node).unasked = process.unasked := rfl
  unfold effort at same ⊢
  rw [unchanged] at same
  simp only at same fewer ⊢
  omega

theorem spends_reply {call : Nat} (inside : call < process.spawned) {action : NodeAction} {timeout : Int} {node : RaftNode}
    (kind : action.isReply = true) (calls : process.stage call = .calling) (acted : process.node.act action = some node) :
    ((process.replaceNode action timeout node).setStage call .replied).effort + 1 ≤ process.effort := by
  have peers := (RaftNode.act_fixed acted (NodeAction.inner (.inr (.inl kind)))).2
  have same := @effort_replaceNode process action timeout node peers
  have spent := @effort_setStage (process.replaceNode action timeout node) _ inside .replied
  rw [show (process.replaceNode action timeout node).stage = process.stage from rfl, calls, same] at spent
  simp only [CallStage.effort] at spent
  omega

theorem spends_advance {call : Nat} (inside : call < process.spawned) {next : CallStage}
    (goes : (process.stage call).next = some next) : (process.setStage call next).effort + 1 ≤ process.effort := by
  have spent := effort_setStage inside next
  have less : next.effort + 1 = (process.stage call).effort := by
    cases stage : process.stage call <;> rw [stage] at goes <;> cases goes <;> rfl
  omega

theorem spends_elect {timeout : Int} {node : RaftNode} (rests : process.node.running = false)
    (loops : process.loop = some .electing) (acted : process.node.act .startElection = some node) :
    ((process.replaceNode .startElection timeout node).setLoop (some (process.elected node))).effort + 1 ≤ process.effort := by
  have peers := (RaftNode.act_fixed acted NodeAction.startElection_inner).2
  have same := @effort_replaceNode process .startElection timeout node peers
  have checks : process.elected node = .checking := if_pos (.inl rests)
  have still : (process.replaceNode .startElection timeout node).loop = some .electing := by
    rcases process.replaceNode_loop .startElection timeout node with unmoved | notified
    · exact unmoved.trans loops
    · rw [notified, loops]
      rfl
  have spent := @spends_loop _ _ .checking still (le_refl _)
  rw [checks]
  omega

theorem spends_reap {call : Nat} {left : List Nat} (loops : process.loop = some (.reaping (call :: left))) :
    ({ process with rpcThreads := process.rpcThreads.erase call }.setLoop (some (.reaping left))).effort + 1 ≤
      process.effort := by
  have same : (({ process with rpcThreads := process.rpcThreads.erase call } : Process).setLoop (some (.reaping left))).unasked =
    process.unasked := rfl
  have fewer := process.owner.effort_mono (@List.erase_sublist _ _ call process.rpcThreads).length_le
  unfold effort
  rw [same, loops]
  simp only [setLoop, Option.elim_some, LoopStage.effort, List.length_cons]
  omega

theorem spends_spawn {left : Nat} (loops : process.loop = some (.spawning (left + 1))) :
    (process.spawn left).effort + 1 ≤ process.effort := by
  have same : (process.spawn left).unasked = process.unasked := rfl
  have sum := sum_fresh CallStage.effort process.stage process.spawned .calling
  have begins : CallStage.calling.effort = 3 := rfl
  have more := process.owner.effort_succ process.rpcThreads.length
  unfold effort
  rw [same, loops]
  simp only [Process.spawn, Option.elim_some, LoopStage.effort, List.length_append, List.length_singleton, sum]
  omega

/-- While Stop is at work, each step of the node leaves less to do. -/
theorem Turn.spends (turn : Turn process step later) (known : process.Sound) (stops : process.owner.ends = true) :
    later.effort + (if !step.outside then 1 else 0) ≤ process.effort := by
  have rests := known.quiet (OwnerStage.ends_apart stops rfl) (OwnerStage.ends_apart stops rfl)
  have inside : ∀ call, process.stage call ≠ .unborn → call < process.spawned := by
    intro call born
    by_contra outside
    exact born ((known.unborn call).mpr (not_lt.mp outside))
  -- a step from outside may cost nothing, every other one costs one
  have most : later.effort + 1 ≤ process.effort → later.effort + (if !step.outside then 1 else 0) ≤ process.effort := by
    intro less
    split <;> omega
  cases turn with
  | pass => exact le_refl _
  | started idle | stopped idle | start idle | stop idle => exact absurd idle (OwnerStage.ends_apart stops rfl)
  | launch launches => exact absurd launches (OwnerStage.ends_apart stops rfl)
  | stopServer halts => exact absurd halts (OwnerStage.ends_apart stops rfl)
  | serverStopped owner => exact most (spends_owner (by rw [owner]; exact le_refl _))
  | joinLoop owner => exact most (spends_joinLoop owner)
  | swapRpcThreads owner => exact most (spends_swapRpcThreads owner)
  | joinedAll owner => exact most (spends_owner (by rw [owner]; exact le_refl _))
  | joinRpcThread owner => exact most (spends_owner (by rw [owner]; exact le_refl _))
  | @server step server inner moved =>
    have spent := spends_server known stops inner (RpcServer.act_turn moved)
    change 2 * server.effort + _ + _ + _ + _ + (if !step.outside then 1 else 0) ≤ 2 * process.server.effort + _ + _ + _ + _
    simp only
    omega
  | request kind serves first _ acted => exact most (spends_request known.server kind serves first acted)
  | direct kind acted =>
    have peers := (RaftNode.act_fixed acted (NodeAction.inner (.inr (.inr kind)))).2
    change 2 * _ + process.unasked.card + _ + _ + _ + 0 ≤ _
    simp only [peers]
    exact le_refl _
  | reply kind calls _ acted =>
    exact most (spends_reply (inside _ fun unborn => by cases calls.symm.trans unborn) kind calls acted)
  | advance goes => exact most (spends_advance (inside _ fun unborn => by rw [unborn] at goes; cases goes) goes)
  | sleep loops runs => cases rests.symm.trans runs
  | wakeBeating loops runs => cases rests.symm.trans runs
  | wakeElecting loops runs => cases rests.symm.trans runs
  | wakeEarly loops runs => cases rests.symm.trans runs
  | leave _ loops =>
    rcases loops with loops | ⟨wake, notified, loops⟩
    · exact most (spends_loop loops (le_refl _))
    · exact most (spends_loop loops (le_refl _))
  | elect loops _ acted => exact most (spends_elect rests loops acted)
  | beat loops goes =>
    rcases goes with rfl | ⟨rfl, runs⟩
    · exact most (spends_loop loops (le_refl _))
    · cases rests.symm.trans runs
  | enter loops =>
    rw [rests] at most ⊢
    exact most (spends_loop loops (le_refl _))
  | reapedAll loops =>
    exact most (spends_loop loops (by simp only [LoopStage.effort, List.length_nil]; omega))
  | skip loops =>
    exact most (spends_loop loops (by simp only [LoopStage.effort, List.length_cons]; omega))
  | spawnedAll loops => exact most (spends_loop loops (le_refl _))
  | reap loops => exact most (spends_reap loops)
  | spawn loops => exact most (spends_spawn loops)

theorem Alive.goes_on {call : Nat} (alive : process.Alive call) :
    ∃ step later, step.outside = false ∧ process.awaitsPeer step = false ∧ process.act step = some later := by
  unfold Alive at alive
  cases stage : process.stage call with
  | unborn | exited =>
    rw [stage] at alive
    exact absurd rfl alive
  | calling => exact ⟨.giveUp call, _, rfl, rfl, if_pos stage⟩
  | replied => exact ⟨.finish call, _, rfl, rfl, if_pos stage⟩
  | finished => exact ⟨.exit call, _, rfl, rfl, if_pos stage⟩

theorem loop_goes_on {stage : LoopStage} (loops : process.loop = some stage) (rests : process.node.running = false)
    (on : stage ≠ .returned) : ∃ step later, step.outside = false ∧ process.awaitsPeer step = false ∧ process.act step = some later := by
  have moves : ∀ step, (process.act step).isSome → step.outside = false → process.awaitsPeer step = false →
      ∃ step later, step.outside = false ∧ process.awaitsPeer step = false ∧ process.act step = some later := by
    intro step moved own unasked
    obtain ⟨later, moved⟩ := Option.isSome_iff_exists.mp moved
    exact ⟨step, later, own, unasked, moved⟩
  cases stage with
  | returned => exact absurd rfl on
  | checking =>
    apply moves .check _ rfl rfl
    simp only [act, loops, if_true, Option.isSome_some]
  | waiting wake notified =>
    apply moves .wake _ rfl rfl
    simp only [act, loops, Option.isSome_some]
  | electing =>
    apply moves (.elect 150) _ rfl rfl
    have acted : process.node.act .startElection = some process.node := by
      simp only [RaftNode.act, RaftNode.startElection, rests, true_or, if_true, Option.map_some]
    simp only [act, loops, if_true, Process.elect, perform, acted, Option.map_some]
    rfl
  | beating =>
    apply moves .beat _ rfl rfl
    have sent : process.node.sendHeartbeats = some [] := if_pos (.inl rests)
    simp only [act, loops, if_true, Process.beat, sent]
    rfl
  | calling =>
    apply moves .enter _ rfl rfl
    simp only [act, loops, if_true, Option.isSome_some]
  | reaping left =>
    cases left with
    | nil =>
      apply moves .reap _ rfl rfl
      simp only [act, loops, Option.isSome_some]
    | cons call left =>
      cases ended : process.stage call with
      | finished => exact ⟨.exit call, _, rfl, rfl, if_pos ended⟩
      | unborn | calling | replied | exited =>
        apply moves .reap _ rfl rfl
        simp only [act, loops, Process.reap, ended, Option.isSome_some]
  | spawning left =>
    apply moves .spawn _ rfl rfl
    cases left <;> simp only [act, loops, Option.isSome_some]

theorem Turn.serves (turn : Turn process step later) :
    later.server = process.server ∨ (∃ step, RpcServer.Turn process.server step later.server) ∨
    ∃ fd, process.owner = .idle ∧ process.node.running = false ∧ (RpcServer.new process.server.holder).start fd = some later.server := by
  cases turn with
  | start idle rests begun => exact .inr (.inr ⟨_, idle, rests, begun⟩)
  | stopServer _ moved => exact .inr (.inl ⟨_, RpcServer.act_turn moved⟩)
  | server _ moved => exact .inr (.inl ⟨_, RpcServer.act_turn moved⟩)
  | _ => exact .inl rfl

theorem listed_or_reused (run : Reaches past process) :
    (∃ before ∈ process :: past, before.server.Reused) ∨ process.server.Listed := by
  apply @Run.invariant _ _ _ _ (fun past process => (∃ before ∈ process :: past, before.server.Reused) ∨ process.server.Listed)
    _ _ _ _ run
  · rintro process ⟨nodeId, peers, onCommit, holder, clock, -, others, rfl⟩
    exact .inr (RpcServer.listed_initial ⟨holder, others, rfl⟩)
  rintro past process step later before (⟨earlier, seen, reused⟩ | listed) moved
  · exact .inl ⟨earlier, List.mem_cons_of_mem _ seen, reused⟩
  have known := sound before
  by_cases reused : process.server.Reused
  · exact .inl ⟨process, List.mem_cons_of_mem _ List.mem_cons_self, reused⟩
  · rcases (act_turn moved).serves with same | ⟨step, turn⟩ | ⟨fd, idle, rests, begun⟩
    · rw [same]
      exact .inr listed
    · exact .inr (RpcServer.listed_step known.server listed reused turn)
    · have halted : process.server.running = false := (known.alike (by rw [idle]; decide)).trans rests
      exact .inr ((known.server.gone (known.serving (by rw [idle]; decide)) halted).relisted begun)

theorem Sound.goes_on (known : process.Sound) (listed : process.server.Listed) (own : process.server.usurped = false)
    (stops : process.owner.ends = true) :
    ∃ step later, step.outside = false ∧ process.awaitsPeer step = false ∧ process.act step = some later := by
  have rests := known.quiet (OwnerStage.ends_apart stops rfl) (OwnerStage.ends_apart stops rfl)
  cases owner : process.owner with
  | idle | launching | halting => exact absurd owner (OwnerStage.ends_apart stops rfl)
  | stopping =>
    by_cases idle : process.server.stop = .idle
    · exact ⟨.serverStopped, _, rfl, rfl, if_pos ⟨owner, idle⟩⟩
    · obtain ⟨step, server, own, unasked, moved⟩ := known.server.goes_on listed own idle
      have inner : step.byOwner = false := by
        cases step with
        | start | stop => exact absurd (Cluster.guarded moved).1 idle
        | _ => rfl
      refine ⟨.server step, { process with server := server }, own, unasked, ?_⟩
      simp only [act, inner, if_true, moved]
      rfl
  | joiningLoop =>
    cases loops : process.loop with
    | none => exact ⟨.joinLoop, _, rfl, rfl, if_pos ⟨owner, .inl loops⟩⟩
    | some stage =>
      by_cases ended : stage = .returned
      · exact ⟨.joinLoop, _, rfl, rfl, if_pos ⟨owner, .inr (loops.trans (congrArg some ended))⟩⟩
      · exact loop_goes_on loops rests ended
  | swapping => exact ⟨.swapRpcThreads, _, rfl, rfl, if_pos owner⟩
  | joiningCalls threads =>
    cases threads with
    | nil =>
      refine ⟨.joinRpcThread, process.setOwner .idle, rfl, rfl, ?_⟩
      simp only [act, owner]
    | cons call rest =>
      by_cases ended : process.stage call = .exited
      · refine ⟨.joinRpcThread, process.setOwner (.joiningCalls rest), rfl, rfl, ?_⟩
        simp only [act, owner, ended, if_true]
      · apply Alive.goes_on
        have below := known.named call (.inr (by rw [owner]; exact List.mem_cons_self))
        have born := mt (known.unborn call).mp (Nat.not_le.mpr below)
        unfold Alive
        cases stage : process.stage call <;> simp_all [CallStage.next]

theorem Sound.effort_begun (known : process.Sound) (stops : process.owner = .stopping) {listener : Int} {connections : Finset Int}
    (begun : process.server.stop = .closing listener connections) :
    process.effort ≤ 2 * connections.card + 7 * process.server.clientThreads.length + 5 * process.rpcThreads.length +
      5 * process.node.peers.length + 25 := by
  have server := known.server.effort_begun begun
  have asked : process.unasked.card ≤ process.server.clientThreads.length := by
    calc process.unasked.card
        ≤ process.server.clientThreads.toFinset.card := by
          apply card_le_card
          intro serial member
          apply List.mem_toFinset.mpr
          apply (known.server.threads serial (.inl (mem_filter.mp member).2.1)).resolve_right
          rintro ⟨joined, joining, -⟩
          cases begun.symm.trans joining
      _ ≤ process.server.clientThreads.length := List.toFinset_card_le _
  have loop : process.loop.elim 0 (LoopStage.effort process.node.peers.length) ≤
      process.rpcThreads.length + 5 * process.node.peers.length + 3 := by
    have fits := known.fits
    cases loops : process.loop with
    | none => exact Nat.zero_le _
    | some stage =>
      rw [loops] at fits
      cases stage <;> simp only [Option.elim_some, LoopStage.effort, LoopStage.Fits] at fits ⊢ <;> omega
  have calls : ∑ call ∈ range process.spawned, (process.stage call).effort ≤ 3 * process.rpcThreads.length := by
    calc ∑ call ∈ range process.spawned, (process.stage call).effort
        ≤ ∑ call ∈ process.rpcThreads.toFinset, (process.stage call).effort := by
          apply sum_le_sum_of_ne_zero
          intro call _ works
          apply List.mem_toFinset.mpr
          have alive : process.Alive call := by
            unfold Alive
            cases stage : process.stage call <;> simp_all [CallStage.effort, CallStage.next]
          apply (known.listed call alive).resolve_right
          rw [stops]
          exact List.not_mem_nil
      _ ≤ process.rpcThreads.toFinset.card * 3 := by
          apply sum_le_card_nsmul
          intro call _
          cases process.stage call <;> simp only [CallStage.effort] <;> omega
      _ ≤ 3 * process.rpcThreads.length := by
          have fewer := process.rpcThreads.toFinset_card_le
          omega
  unfold effort
  rw [stops]
  simp only [OwnerStage.effort]
  omega

/-- Once Stop has told the server, every schedule has only so many steps of the node before it
returns. Until then some thread can go on without a peer, unless the server cannot. -/
theorem stop_returns (run : Reaches past process) (stops : process.owner = .stopping) {listener : Int} {connections : Finset Int}
    (begun : process.server.stop = .closing listener connections) {steps : List ProcessStep} {visited : List Process × Process}
    (played : replay act process steps = some visited) (ending : ∀ passed ∈ visited.1, passed.owner.ends = true) :
    steps.countP (fun step => !step.outside) ≤ 2 * connections.card + 7 * process.server.clientThreads.length +
      5 * process.rpcThreads.length + 5 * process.node.peers.length + 25 ∧
    (visited.2.owner.ends = true →
      (∃ before ∈ visited.2 :: (visited.1 ++ past), before.server.Reused) ∨ visited.2.server.usurped = true ∨
      ∃ step later, step.outside = false ∧ visited.2.awaitsPeer step = false ∧ visited.2.act step = some later) := by
  have spent := @replay_spends _ _ act (fun process => process.Sound) (fun process => process.owner.ends = true)
    (fun step => !step.outside) effort
    (fun process step later known moved => known.turn (act_turn moved))
    (fun process step later known busy moved => (act_turn moved).spends known busy)
    _ _ _ played (sound run) ending
  have bounded := (sound run).effort_begun stops begun
  refine ⟨by omega, fun still => ?_⟩
  rcases listed_or_reused (Run.append_replay run played) with reused | listed
  · exact .inl reused
  · cases own : visited.2.server.usurped with
    | true => exact .inr (.inl rfl)
    | false => exact .inr (.inr (spent.2.goes_on listed own still))

/-- A node is stopped while it asks for votes. -/
theorem stop_returns_served : ∃ past process, ∃ steps : List ProcessStep, ∃ visited : List Process × Process, Reaches past process ∧
    process.server.stop = .closing 4 {5} ∧ process.rpcThreads = [0] ∧ replay act process steps = some visited ∧
    steps.countP (fun step => !step.outside) ≤ 2 * ({5} : Finset Int).card + 7 * process.server.clientThreads.length +
      5 * process.rpcThreads.length + 5 * process.node.peers.length + 25 ∧
    ∃ step later, step.outside = false ∧ visited.2.awaitsPeer step = false ∧ visited.2.act step = some later := by
  have begun : ∃ visited ∈ replay act fresh
      [.start 4 150, .launch, .check, .pass 150, .wake, .elect 200, .enter, .reap, .spawn, .spawn, .server .poll, .server (.accept 5),
        .server .register, .server .spawn, .stop, .stopServer],
      visited.2.owner = .stopping ∧ visited.2.server.stop = .closing 4 {5} ∧ visited.2.rpcThreads = [0] ∧
        ∃ after ∈ replay act visited.2 [.server .closeListener, .check, .giveUp 0, .pass 20, .request 0 (.requestVote 2 2) 200],
          (∀ passed ∈ after.1, passed.owner.ends = true) ∧ after.2.owner.ends = true ∧
          (∀ before ∈ after.2 :: (after.1 ++ visited.1), ¬ before.server.Reused) ∧ after.2.server.usurped = false := by
    decide +kernel
  obtain ⟨visited, played, stops, closing, one, after, playedAfter, ending, still, unused, own⟩ := begun
  have run := fresh_reaches played
  obtain ⟨few, goes⟩ := stop_returns run stops closing playedAfter ending
  rcases goes still with ⟨before, seen, reused⟩ | usurped | goes
  · exact absurd reused (unused before seen)
  · cases own.symm.trans usurped
  · exact ⟨_, _, _, after, run, closing, one, playedAfter, few, goes⟩

end Process

end QuorumDB.Raft
