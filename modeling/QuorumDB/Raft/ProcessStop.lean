import QuorumDB.Raft.Process

/-!
Stopping a node. Once Stop has returned no thread works on the node, and the server is gone; and
Stop returns under every schedule, whatever peers do.
-/

namespace QuorumDB.Raft
open Execution Rpc Finset

def OwnerStage.toJoin : OwnerStage → List Nat
  | .joiningCalls threads => threads
  | _ => []

def OwnerStage.pastLoop : OwnerStage → Bool
  | .swapping | .joiningCalls _ => true
  | _ => false

def OwnerStage.pastList : OwnerStage → Bool
  | .idle | .joiningCalls _ => true
  | _ => false

/-- A pass over the threads, or over the peers, has no more to do than there are. -/
def LoopStage.Fits (peers threads : Nat) : LoopStage → Prop
  | .reaping left => left.length ≤ threads
  | .spawning left => left ≤ peers
  | _ => True

namespace Process

def Alive (process : Process) (call : Nat) : Prop :=
  (process.stage call).next ≠ none

structure Controlled (process : Process) : Prop where
  server : process.server.Sound
  quiet : process.owner ≠ .idle → process.owner ≠ .launching → process.node.running = false
  launching : process.owner = .launching → process.node.running = true ∧ process.loop = none
  begun : process.owner = .idle → (process.node.running = true ↔ process.loop ≠ none)
  serving : process.owner ≠ .stopping → process.server.stop = .idle
  alike : process.owner ≠ .halting → process.server.running = process.node.running
  joined : process.owner.pastLoop = true → process.loop = none

structure Booked (process : Process) : Prop where
  listed : ∀ call, process.Alive call → call ∈ process.rpcThreads ∨ call ∈ process.owner.toJoin
  named : ∀ call, call ∈ process.rpcThreads ∨ call ∈ process.owner.toJoin → call < process.spawned
  unborn : ∀ call, process.stage call = .unborn ↔ process.spawned ≤ call
  drained : process.node.running = false → process.owner.pastList = true → process.rpcThreads = []
  fits : process.loop.elim True (LoopStage.Fits process.node.peers.length process.rpcThreads.length)

structure Sound (process : Process) : Prop extends Controlled process, Booked process

structure Gone (process : Process) : Prop where
  loop : process.loop = none
  rpcThreads : process.rpcThreads = []
  calls : ∀ call, ¬ process.Alive call
  server : process.server.Gone

def fresh : Process :=
  ⟨.new 1 [2] true, 0, 0, 0, 0, .idle, none, [], 0, fun _ => .unborn, .new fun fd => if fd = 3 then some .other else none, ∅⟩

variable {process later : Process} {step : ProcessStep} {past : List Process}

theorem fresh_reaches {steps : List ProcessStep} {visited : List Process × Process} (played : replay act fresh steps = some visited) :
    Reaches visited.1 visited.2 := by
  have begins : fresh.Initial := by
    refine ⟨_, _, _, _, _, le_refl 0, fun fd => ?_, rfl⟩
    split_ifs
    · exact .inr rfl
    · exact .inl rfl
  have extended := Run.append_replay (.start begins) played
  rw [List.append_nil] at extended
  exact extended

theorem map_notify (loop : Option LoopStage) (peers threads : Nat) : (loop.map LoopStage.notify = none ↔ loop = none) ∧
    ((loop.map LoopStage.notify).elim True (LoopStage.Fits peers threads) ↔ loop.elim True (LoopStage.Fits peers threads)) := by
  refine ⟨Option.map_eq_none_iff, ?_⟩
  cases loop with
  | none => exact Iff.rfl
  | some stage => cases stage <;> exact Iff.rfl

theorem replaceNode_loop (process : Process) (action : NodeAction) (timeout : Int) (node : RaftNode) :
    (process.replaceNode action timeout node).loop = process.loop ∨
      (process.replaceNode action timeout node).loop = process.loop.map LoopStage.notify := by
  unfold replaceNode
  simp only
  split_ifs
  · exact .inr rfl
  · exact .inl rfl

theorem replaceNode_idle {action : NodeAction} {timeout : Int} {node : RaftNode} :
    (process.replaceNode action timeout node).loop = none ↔ process.loop = none := by
  rcases process.replaceNode_loop action timeout node with same | notified
  · rw [same]
  · rw [notified]
    exact (map_notify process.loop 0 0).1

theorem NodeAction.inner {action : NodeAction} (kind : action.isRequest = true ∨ action.isReply = true ∨ action.isDirect = true) :
    action ≠ .start ∧ action ≠ .stop := by
  constructor <;> rintro rfl <;> exact absurd kind (by decide)

theorem NodeAction.startElection_inner : NodeAction.startElection ≠ .start ∧ NodeAction.startElection ≠ .stop := by
  constructor <;> intro same <;> cases same

theorem Controlled.frame (known : process.Controlled) (running : later.node.running = process.node.running)
    (owner : later.owner = process.owner) (server : later.server = process.server)
    (loop : later.loop = none ↔ process.loop = none) : later.Controlled := by
  constructor
  · rw [server]
    exact known.server
  · rw [owner, running]
    exact known.quiet
  · rw [owner, running, loop]
    exact known.launching
  · rw [owner, running, Ne, loop]
    exact known.begun
  · rw [owner, server]
    exact known.serving
  · rw [owner, server, running]
    exact known.alike
  · rw [owner, loop]
    exact known.joined

theorem Controlled.moveLoop (known : process.Controlled) {stage next : LoopStage} (loops : process.loop = some stage) :
    (process.setLoop (some next)).Controlled := by
  refine known.frame rfl rfl rfl ?_
  rw [loops]
  exact iff_of_false nofun nofun

theorem Controlled.unlooped (known : process.Controlled) (idle : process.owner = .idle) (rests : process.node.running = false) :
    process.loop = none := by
  by_contra there
  have runs := (known.begun idle).mpr there
  cases rests.symm.trans runs

theorem controlled_step (known : process.Sound) (turn : Turn process step later) : later.Controlled := by
  have control := known.toControlled
  cases turn with
  | pass => exact control.frame rfl rfl rfl Iff.rfl
  | started | stopped => exact control
  | @start fd timeout server node idle rests begun drawn acted =>
    have free : process.loop = none := control.unlooped idle rests
    have halted : process.server.running = false := (control.alike (by rw [idle]; decide)).trans rests
    obtain ⟨sound, quiet, serves⟩ := (control.server.gone (control.serving (by rw [idle]; decide)) halted).renewed begun
    have runs : node.running = true := by
      obtain rfl := Option.some.inj acted
      unfold RaftNode.start
      rw [if_neg (by rw [rests]; decide)]
    have still : (process.replaceNode .start timeout node).loop = none := replaceNode_idle.mpr free
    exact ⟨sound, fun _ other => absurd rfl other, fun _ => ⟨runs, still⟩, nofun, fun _ => quiet,
      fun _ => serves.trans runs.symm, nofun⟩
  | launch launches free =>
    obtain ⟨runs, -⟩ := control.launching launches
    exact ⟨control.server, fun other => absurd rfl other, nofun, fun _ => iff_of_true runs nofun,
      fun _ => control.serving (by rw [launches]; decide), fun _ => control.alike (by rw [launches]; decide), nofun⟩
  | stop idle busy =>
    exact ⟨control.server, fun _ _ => rfl, nofun, nofun, fun _ => control.serving (by rw [idle]; decide), fun other => absurd rfl other, nofun⟩
  | stopServer halts moved =>
    have rests := control.quiet (by rw [halts]; decide) (by rw [halts]; decide)
    exact ⟨control.server.turn (RpcServer.act_turn moved), fun _ _ => rests, nofun, nofun, fun other => absurd rfl other,
      fun _ => (RpcServer.act_stop_running moved).trans rests.symm, nofun⟩
  | serverStopped stops idle =>
    have rests := control.quiet (by rw [stops]; decide) (by rw [stops]; decide)
    exact ⟨control.server, fun _ _ => rests, nofun, nofun, fun _ => idle, fun _ => control.alike (by rw [stops]; decide), nofun⟩
  | joinLoop joins ended =>
    have rests := control.quiet (by rw [joins]; decide) (by rw [joins]; decide)
    exact ⟨control.server, fun _ _ => rests, nofun, nofun, fun _ => control.serving (by rw [joins]; decide),
      fun _ => control.alike (by rw [joins]; decide), fun _ => rfl⟩
  | swapRpcThreads swaps =>
    have rests := control.quiet (by rw [swaps]; decide) (by rw [swaps]; decide)
    exact ⟨control.server, fun _ _ => rests, nofun, nofun, fun _ => control.serving (by rw [swaps]; decide),
      fun _ => control.alike (by rw [swaps]; decide), fun _ => control.joined (by rw [swaps]; rfl)⟩
  | joinedAll joins =>
    have rests := control.quiet (by rw [joins]; nofun) (by rw [joins]; nofun)
    have free := control.joined (by rw [joins]; rfl)
    exact ⟨control.server, fun _ _ => rests, nofun, fun _ => iff_of_false (fun runs => Bool.noConfusion (rests.symm.trans runs)) (not_not.mpr free),
      fun _ => control.serving (by rw [joins]; nofun), fun _ => control.alike (by rw [joins]; nofun), fun _ => free⟩
  | joinRpcThread joins =>
    have rests := control.quiet (by rw [joins]; nofun) (by rw [joins]; nofun)
    exact ⟨control.server, fun _ _ => rests, nofun, nofun, fun _ => control.serving (by rw [joins]; nofun),
      fun _ => control.alike (by rw [joins]; nofun), fun _ => control.joined (by rw [joins]; rfl)⟩
  | server own moved =>
    have turn := RpcServer.act_turn moved
    obtain ⟨running, still⟩ := turn.kept own
    exact ⟨control.server.turn turn, control.quiet, control.launching, control.begun, fun apart => still (control.serving apart),
      fun apart => running.trans (control.alike apart), control.joined⟩
  | @request serial action timeout node kind serves first drawn acted =>
    exact control.frame (RaftNode.act_fixed acted (NodeAction.inner (.inl kind))).1 rfl rfl (@replaceNode_idle process action timeout node)
  | direct kind acted =>
    exact control.frame (RaftNode.act_fixed acted (NodeAction.inner (.inr (.inr kind)))).1 rfl rfl Iff.rfl
  | @reply call action timeout node kind calls drawn acted =>
    exact control.frame (RaftNode.act_fixed acted (NodeAction.inner (.inr (.inl kind)))).1 rfl rfl (@replaceNode_idle process action timeout node)
  | elect loops drawn acted =>
    refine control.frame (RaftNode.act_fixed acted NodeAction.startElection_inner).1 rfl rfl ?_
    rw [loops]
    exact iff_of_false nofun nofun
  | leave rests loops =>
    rcases loops with loops | ⟨wake, notified, loops⟩
    · exact control.moveLoop loops
    · exact control.moveLoop loops
  | sleep loops | wakeElecting loops | wakeEarly loops | beat loops | enter loops | reapedAll loops | skip loops | spawnedAll loops =>
    exact control.moveLoop loops
  | wakeBeating loops | reap loops | spawn loops =>
    refine control.frame rfl rfl rfl ?_
    rw [loops]
    exact iff_of_false nofun nofun
  | advance => exact control.frame rfl rfl rfl Iff.rfl

theorem Booked.frame (known : process.Booked) (rpcThreads : later.rpcThreads = process.rpcThreads)
    (spawned : later.spawned = process.spawned) (stage : later.stage = process.stage)
    (toJoin : later.owner.toJoin = process.owner.toJoin)
    (drained : later.node.running = false → later.owner.pastList = true → process.rpcThreads = [])
    (fits : later.loop.elim True (LoopStage.Fits later.node.peers.length process.rpcThreads.length)) : later.Booked := by
  constructor
  · unfold Alive
    rw [stage, rpcThreads, toJoin]
    exact known.listed
  · rw [rpcThreads, toJoin, spawned]
    exact known.named
  · rw [stage, spawned]
    exact known.unborn
  · rw [rpcThreads]
    exact drained
  · rw [rpcThreads]
    exact fits

theorem Booked.advance (known : process.Booked) {call : Nat} {next : CallStage} (goes : (process.stage call).next = some next) :
    (process.setStage call next).Booked := by
  have born : process.stage call ≠ .unborn := by
    intro unborn
    rw [unborn] at goes
    cases goes
  have later : next ≠ .unborn := by
    rintro rfl
    cases stage : process.stage call <;> rw [stage] at goes <;> cases goes
  refine ⟨fun other alive => ?_, known.named, fun other => ?_, known.drained, known.fits⟩
  · apply known.listed
    by_cases same : other = call
    · subst same
      intro ended
      cases goes.symm.trans ended
    · change (Function.update process.stage call next other).next ≠ none at alive
      rw [Function.update_of_ne same] at alive
      exact alive
  · change Function.update process.stage call next other = .unborn ↔ process.spawned ≤ other
    by_cases same : other = call
    · subst same
      rw [Function.update_self]
      exact iff_of_false later fun above => born ((known.unborn other).mpr above)
    · rw [Function.update_of_ne same]
      exact known.unborn other

theorem replaceNode_booked (known : process.Booked) {action : NodeAction} (timeout : Int) {node : RaftNode}
    (acted : process.node.act action = some node) (inner : action ≠ .start ∧ action ≠ .stop) :
    (process.replaceNode action timeout node).Booked := by
  obtain ⟨running, peers⟩ := RaftNode.act_fixed acted inner
  refine known.frame rfl rfl rfl rfl (fun halted => known.drained (running.symm.trans halted)) ?_
  change (process.replaceNode action timeout node).loop.elim True (LoopStage.Fits node.peers.length process.rpcThreads.length)
  rw [peers]
  rcases process.replaceNode_loop action timeout node with same | notified
  · rw [same]
    exact known.fits
  · rw [notified]
    exact (map_notify ..).2.mpr known.fits

theorem Alive.ne_exited {call other : Nat} (alive : process.Alive call) (ended : process.stage other = .exited) : call ≠ other := by
  rintro rfl
  apply alive
  rw [ended]
  rfl

theorem Booked.joinRpcThread (booked : process.Booked) {call : Nat} {rest : List Nat}
    (joins : process.owner = .joiningCalls (call :: rest)) (ended : process.stage call = .exited) :
    (process.setOwner (.joiningCalls rest)).Booked := by
  refine ⟨fun other alive => ?_, fun other member => ?_, booked.unborn, fun halted _ => booked.drained halted (by rw [joins]; rfl),
    booked.fits⟩
  · apply (booked.listed other alive).imp_right
    rw [joins]
    intro member
    exact (List.mem_cons.mp member).resolve_left (Alive.ne_exited alive ended)
  · apply booked.named other
    rw [joins]
    exact member.imp_right (List.mem_cons_of_mem call)

theorem Booked.reap (booked : process.Booked) {call : Nat} {left : List Nat}
    (loops : process.loop = some (.reaping (call :: left))) (ended : process.stage call = .exited) :
    ({ process with rpcThreads := process.rpcThreads.erase call }.setLoop (some (.reaping left))).Booked := by
  refine ⟨fun other alive => ?_, fun other member => booked.named other (member.imp_left List.mem_of_mem_erase), booked.unborn,
    fun halted past => ?_, ?_⟩
  · apply (booked.listed other alive).imp_left
    exact (List.mem_erase_of_ne (Alive.ne_exited alive ended)).mpr
  · change process.rpcThreads.erase call = []
    rw [booked.drained halted past, List.erase_nil]
  · have fits := booked.fits
    rw [loops] at fits
    have before : (call :: left).length ≤ process.rpcThreads.length := fits
    change left.length ≤ (process.rpcThreads.erase call).length
    rw [List.length_cons] at before
    rw [List.length_erase]
    split_ifs <;> omega

/-- A thread is started for one more peer, while Stop is not past the list of threads. -/
theorem Booked.spawn (booked : process.Booked) {left : Nat} (loops : process.loop = some (.spawning (left + 1)))
    (pending : process.node.running = false → process.owner.pastList ≠ true) : (process.spawn left).Booked := by
  refine ⟨fun call alive => ?_, fun call member => ?_, fun call => ?_, fun halted past => absurd past (pending halted), ?_⟩
  · change (Function.update process.stage process.spawned .calling call).next ≠ none at alive
    by_cases same : call = process.spawned
    · exact .inl (List.mem_append_right _ (List.mem_singleton.mpr same))
    · rw [Function.update_of_ne same] at alive
      exact (booked.listed call alive).imp_left (List.mem_append_left _)
  · change call < process.spawned + 1
    rcases member with listed | joins
    · rcases List.mem_append.mp listed with before | new
      · have := booked.named call (.inl before)
        omega
      · have := List.mem_singleton.mp new
        omega
    · have := booked.named call (.inr joins)
      omega
  · change Function.update process.stage process.spawned .calling call = .unborn ↔ process.spawned + 1 ≤ call
    by_cases same : call = process.spawned
    · rw [same, Function.update_self]
      exact iff_of_false nofun (by omega)
    · rw [Function.update_of_ne same, booked.unborn]
      omega
  · have fits := booked.fits
    rw [loops] at fits
    exact Nat.le_of_succ_le fits

/-- Once Stop is past the list of threads the loop is gone, which starts them. -/
theorem Sound.loopless (known : process.Sound) (halted : process.node.running = false) (past : process.owner.pastList = true) :
    process.loop = none := by
  cases owner : process.owner with
  | idle => exact known.unlooped owner halted
  | joiningCalls threads => exact known.joined (by rw [owner]; rfl)
  | launching | halting | stopping | joiningLoop | swapping =>
    rw [owner] at past
    cases past

theorem booked_step (known : process.Sound) (turn : Turn process step later) : later.Booked := by
  have booked := known.toBooked
  cases turn with
  | pass => exact booked.frame rfl rfl rfl rfl booked.drained booked.fits
  | started | stopped => exact booked
  | @start fd timeout server node idle rests begun drawn acted =>
    have free : process.loop = none := known.unlooped idle rests
    refine booked.frame rfl rfl rfl (by rw [idle]; rfl) nofun ?_
    have still : (process.replaceNode .start timeout node).loop = none := replaceNode_idle.mpr free
    simp only [still, Option.elim_none]
  | launch launches free =>
    have runs := (known.launching launches).1
    refine booked.frame rfl rfl rfl (by rw [launches]; rfl) (fun rests => ?_) trivial
    cases runs.symm.trans rests
  | stop idle busy =>
    exact booked.frame rfl rfl rfl (by rw [idle]; rfl) nofun ((map_notify ..).2.mpr booked.fits)
  | stopServer halts moved => exact booked.frame rfl rfl rfl (by rw [halts]; rfl) nofun booked.fits
  | serverStopped stops idle => exact booked.frame rfl rfl rfl (by rw [stops]; rfl) nofun booked.fits
  | joinLoop joins ended => exact booked.frame rfl rfl rfl (by rw [joins]; rfl) nofun trivial
  | swapRpcThreads swaps =>
    have free := known.joined (by rw [swaps]; rfl)
    refine ⟨fun call alive => ?_, fun call member => ?_, booked.unborn, fun _ _ => rfl, ?_⟩
    · apply Or.inr
      apply (booked.listed call alive).resolve_right
      rw [swaps]
      exact List.not_mem_nil
    · exact booked.named call (.inl (member.resolve_left List.not_mem_nil))
    · simp only [setOwner, free, Option.elim_none]
  | joinedAll joins =>
    have rests := known.quiet (by rw [joins]; nofun) (by rw [joins]; nofun)
    exact booked.frame rfl rfl rfl (by rw [joins]; rfl) (fun _ _ => booked.drained rests (by rw [joins]; rfl)) booked.fits
  | joinRpcThread joins ended => exact booked.joinRpcThread joins ended
  | server own moved => exact booked.frame rfl rfl rfl rfl booked.drained booked.fits
  | @request serial action timeout node kind serves first drawn acted =>
    have after := replaceNode_booked booked timeout acted (NodeAction.inner (.inl kind))
    exact after.frame rfl rfl rfl rfl after.drained after.fits
  | direct kind acted =>
    obtain ⟨running, peers⟩ := RaftNode.act_fixed acted (NodeAction.inner (.inr (.inr kind)))
    refine booked.frame rfl rfl rfl rfl (fun halted => booked.drained (running.symm.trans halted)) ?_
    simp only [peers]
    exact booked.fits
  | @reply call action timeout node kind calls drawn acted =>
    apply (replaceNode_booked booked timeout acted (NodeAction.inner (.inr (.inl kind)))).advance
    change (process.stage call).next = _
    rw [calls]
    rfl
  | advance goes => exact booked.advance goes
  | @elect timeout node loops drawn acted =>
    have after := replaceNode_booked booked timeout acted NodeAction.startElection_inner
    refine after.frame rfl rfl rfl rfl after.drained ?_
    change (process.elected node).Fits _ _
    unfold elected
    split_ifs <;> trivial
  | leave => exact booked.frame rfl rfl rfl rfl booked.drained trivial
  | reapedAll => exact booked.frame rfl rfl rfl rfl booked.drained (le_refl process.node.peers.length)
  | sleep | wakeBeating | wakeElecting | wakeEarly | spawnedAll => exact booked.frame rfl rfl rfl rfl booked.drained trivial
  | beat loops goes =>
    rcases goes with rfl | ⟨rfl, -⟩
    · exact booked.frame rfl rfl rfl rfl booked.drained trivial
    · exact booked.frame rfl rfl rfl rfl booked.drained trivial
  | enter loops =>
    split_ifs
    · exact booked.frame rfl rfl rfl rfl booked.drained (le_refl process.rpcThreads.length)
    · exact booked.frame rfl rfl rfl rfl booked.drained trivial
  | @skip call left loops =>
    have fits := booked.fits
    rw [loops] at fits
    exact booked.frame rfl rfl rfl rfl booked.drained (Nat.le_of_succ_le fits)
  | reap loops ended => exact booked.reap loops ended
  | spawn loops =>
    refine booked.spawn loops fun halted past => ?_
    cases (known.loopless halted past).symm.trans loops

theorem Sound.turn (known : process.Sound) (turn : Turn process step later) : later.Sound :=
  ⟨controlled_step known turn, booked_step known turn⟩

theorem sound_initial (fresh : process.Initial) : process.Sound := by
  obtain ⟨nodeId, peers, onCommit, holder, clock, -, free, rfl⟩ := fresh
  have server : (RpcServer.new holder).Sound := RpcServer.sound (.start ⟨holder, free, rfl⟩)
  refine ⟨⟨server, fun other => absurd rfl other, nofun, fun _ => iff_of_false nofun (fun there => there rfl), fun _ => rfl,
    fun _ => rfl, nofun⟩, ⟨fun call alive => absurd rfl alive, fun call member => ?_, fun call => iff_of_true rfl (Nat.zero_le call),
    fun _ _ => rfl, trivial⟩⟩
  rcases member with member | member
  · cases member
  · cases member

theorem sound (run : Reaches past process) : process.Sound := by
  apply run.invariant (fun _ fresh => sound_initial fresh)
  intro past process step later before known moved
  exact known.turn (act_turn moved)

/-- A node that does not run is gone, where Stop is not at work. -/
theorem Sound.gone (known : process.Sound) (idle : process.owner = .idle) (rests : process.node.running = false) : process.Gone := by
  have drained := known.drained rests (by rw [idle]; rfl)
  refine ⟨known.unlooped idle rests, drained, fun call alive => ?_, ?_⟩
  · have listed := known.listed call alive
    rw [drained, idle] at listed
    rcases listed with member | member
    · cases member
    · cases member
  · exact known.server.gone (known.serving (by rw [idle]; decide)) ((known.alike (by rw [idle]; decide)).trans rests)

theorem Gone.undisturbed (gone : process.Gone) (rests : process.node.running = false)
    (turn : Turn process step later) (changed : later.node ≠ process.node) :
    (∃ fd timeout, step = .start fd timeout) ∨ ∃ action, step = .direct action := by
  cases turn with
  | start => exact .inl ⟨_, _, rfl⟩
  | direct => exact .inr ⟨_, rfl⟩
  | stop _ busy => exact absurd ⟨rests, gone.loop⟩ busy
  | request kind serves => exact absurd (.inl serves) (gone.server.threads _)
  | @reply call action timeout node kind calls =>
    refine absurd ?_ (gone.calls call)
    unfold Alive
    rw [calls]
    decide
  | elect loops => cases gone.loop.symm.trans loops
  | _ => exact absurd rfl changed

/-- In every execution the loop is started where there is none, and once Stop has returned no thread
of the node is left, nor anything of its server: only calls of Start, Propose and SetOnCommitCallback change it. -/
theorem stop_leaves_node (run : Reaches past process) :
    (process.owner = .launching → process.loop = none) ∧
    (process.owner = .idle → process.node.running = false → process.Gone ∧
      ∀ step later, process.act step = some later → later.node ≠ process.node →
        (∃ fd timeout, step = .start fd timeout) ∨ ∃ action, step = .direct action) := by
  have known := sound run
  refine ⟨fun launches => (known.launching launches).2, fun idle rests => ⟨known.gone idle rests, fun step later moved changed => ?_⟩⟩
  exact (known.gone idle rests).undisturbed rests (act_turn moved) changed

/-- A node that has asked for votes, and has been asked for its own, is stopped. -/
theorem stop_leaves_node_served : ∃ past process, Reaches past process ∧ process.spawned = 1 ∧ process.server.accepted = 1 ∧
    process.Gone ∧ ∀ step later, process.act step = some later → later.node ≠ process.node →
      (∃ fd timeout, step = .start fd timeout) ∨ ∃ action, step = .direct action := by
  have stopped : ∃ visited ∈ replay act fresh
      [.start 4 150, .launch, .check, .pass 150, .wake, .elect 200, .enter, .reap, .spawn, .spawn, .server .poll, .server (.accept 5),
        .server .register, .server .spawn, .request 0 (.requestVote 2 2) 200, .stop, .stopServer, .server .closeListener,
        .server (.shutdown 5), .server .poll, .server (.close 0), .server (.erase 0), .server .joinAcceptThread,
        .server .swapClientThreads, .server .joinClientThread, .server .joinClientThread, .serverStopped, .check, .joinLoop,
        .swapRpcThreads, .giveUp 0, .finish 0, .exit 0, .joinRpcThread, .joinRpcThread],
      visited.2.spawned = 1 ∧ visited.2.server.accepted = 1 ∧ visited.2.owner = .idle ∧ visited.2.node.running = false := by
    decide +kernel
  obtain ⟨visited, played, one, served, idle, rests⟩ := stopped
  have run := fresh_reaches played
  obtain ⟨gone, alone⟩ := (stop_leaves_node run).2 idle rests
  exact ⟨_, _, run, one, served, gone, alone⟩

end Process

end QuorumDB.Raft
