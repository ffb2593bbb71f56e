import QuorumDB.Raft.NodeRun
import QuorumDB.Rpc.Stopping

/-!
A node with its threads (`raft/raft_node.cpp`): the thread that waits for elections and heartbeats, one
for each request that is under way, and those of the server. A step is what runs under one lock of
the node, or what a thread does between two locks. Start and Stop are called by one thread.
-/

namespace QuorumDB.Raft
open Execution Rpc

def kHeartbeatInterval : Int := 75

/-- Where `ElectionLoop` is, or what it has called. StartElection and SendHeartbeats end alike: they take
the lock of the threads, join those that are finished and start one for each peer. -/
inductive LoopStage where
  | checking
  | waiting (wake : Int) (notified : Bool)
  | electing
  | beating
  | calling
  | reaping (left : List Nat)
  | spawning (left : Nat)
  | returned
  deriving DecidableEq, Repr

inductive CallStage where
  | unborn
  | calling
  | replied
  | finished
  | exited
  deriving DecidableEq, Repr

inductive OwnerStage where
  | idle
  | launching
  | halting
  | stopping
  | joiningLoop
  | swapping
  | joiningCalls (threads : List Nat)
  deriving DecidableEq, Repr

/-- Times are milliseconds. `lastReset` is when ResetElectionDeadlineLocked was last called, and
`handled` are the connections on which a request was handled. -/
structure Process where
  node : RaftNode
  clock : Int
  electionDeadline : Int
  nextHeartbeat : Int
  lastReset : Int
  owner : OwnerStage
  loop : Option LoopStage
  rpcThreads : List Nat
  spawned : Nat
  stage : Nat → CallStage
  server : RpcServer
  handled : Finset Nat

inductive ProcessStep where
  | pass (time : Nat)
  | start (fd : Int) (timeout : Int)
  | launch
  | stop
  | stopServer
  | serverStopped
  | joinLoop
  | swapRpcThreads
  | joinRpcThread
  | server (step : ServerStep)
  | request (serial : Nat) (action : NodeAction) (timeout : Int)
  | direct (action : NodeAction)
  | check
  | wake
  | elect (timeout : Int)
  | beat
  | enter
  | reap
  | spawn
  | reply (call : Nat) (action : NodeAction) (timeout : Int)
  | giveUp (call : Nat)
  | finish (call : Nat)
  | exit (call : Nat)

/-- What a connection thread runs of the node. -/
def NodeAction.isRequest : NodeAction → Bool
  | .requestVote .. | .appendEntries .. => true
  | _ => false

/-- What any thread of the process may run of the node, beside Start and Stop. -/
def NodeAction.isDirect : NodeAction → Bool
  | .propose _ | .setOnCommitCallback _ => true
  | _ => false

/-- What the thread of a request runs of the node. -/
def NodeAction.isReply : NodeAction → Bool
  | .voteReply .. | .appendReply .. => true
  | _ => false

def RaftNode.resets (node : RaftNode) : NodeAction → Bool
  | .start => !node.running
  | .startElection => node.running && node.state != .leader
  | .requestVote term _ => node.currentTerm ≤ term
  | .appendEntries term _ _ => node.currentTerm ≤ term
  | .voteReply _ _ reply => node.running && decide (node.currentTerm < reply.term)
  | .appendReply _ _ reply => node.running && node.state == .leader && decide (node.currentTerm < reply.term)
  | .stop | .setOnCommitCallback _ | .propose _ | .sendHeartbeats => false

theorem RaftNode.act_fixed {node later : RaftNode} {action : NodeAction} (acted : node.act action = some later)
    (inner : action ≠ .start ∧ action ≠ .stop) : later.running = node.running ∧ later.peers = node.peers := by
  cases act_turn acted with
  | start => exact absurd rfl inner.1
  | stop => exact absurd rfl inner.2
  | same | setOnCommitCallback | campaign | winAlone | propose | vote | stepDown | count | win | back => exact ⟨rfl, rfl⟩
  | follow fresh =>
    rw [seeLeader_eq _ fresh]
    exact ⟨rfl, rfl⟩
  | accept fresh matching ran =>
    obtain ⟨commitIndex, lastApplied, commits, rfl⟩ := acceptEntries_frame ran
    rw [seeLeader_eq _ fresh]
    exact ⟨rfl, rfl⟩
  | acknowledge leads ran =>
    obtain ⟨commitIndex, lastApplied, commits, rfl⟩ := commitScan_frame ran
    exact ⟨rfl, rfl⟩

def CallStage.next : CallStage → Option CallStage
  | .calling => some .replied
  | .replied => some .finished
  | .finished => some .exited
  | .unborn | .exited => none

/-- `notify_all` reaches the loop where it waits. -/
def LoopStage.notify : LoopStage → LoopStage
  | .waiting wake _ => .waiting wake true
  | stage => stage

namespace Process

/-- The node after one of its functions, with what that does to the timers. A node that has become the leader
sets its next heartbeat and wakes the loop. -/
def replaceNode (process : Process) (action : NodeAction) (timeout : Int) (node : RaftNode) : Process :=
  let resets := process.node.resets action
  let leads := process.node.state ≠ .leader ∧ node.state = .leader
  { process with
    node := node
    electionDeadline := if resets then process.clock + timeout else process.electionDeadline
    lastReset := if resets then process.clock else process.lastReset
    nextHeartbeat := if leads then process.clock else process.nextHeartbeat
    loop := if leads then process.loop.map LoopStage.notify else process.loop }

/-- `timeout` is what the random engine would give. -/
def perform (process : Process) (action : NodeAction) (timeout : Int) : Option Process :=
  if 150 ≤ timeout ∧ timeout ≤ 300 then (process.node.act action).map (process.replaceNode action timeout) else none

def setOwner (process : Process) (owner : OwnerStage) : Process :=
  { process with owner := owner }

def setLoop (process : Process) (loop : Option LoopStage) : Process :=
  { process with loop := loop }

def setStage (process : Process) (call : Nat) (stage : CallStage) : Process :=
  { process with stage := Function.update process.stage call stage }

/-- The first part of Start, under the lock; the thread is started after it. -/
def start (process : Process) (fd timeout : Int) : Option Process :=
  if process.node.running then some process
  else do
    let server ← (RpcServer.new process.server.holder).start fd
    let later ← process.perform .start timeout
    some { later with server := server, handled := ∅, owner := .launching }

/-- The part of Stop under the lock. -/
def beginStop (process : Process) : Process :=
  if process.node.running = false ∧ process.loop = none then process
  else { process with
    node := process.node.stop
    loop := process.loop.map LoopStage.notify
    owner := .halting }

/-- ElectionLoop after its wait, for whatever reason that ended. -/
def wake (process : Process) : Process :=
  if process.node.running = false then process.setLoop (some .returned)
  else if process.node.state = .leader ∧ process.nextHeartbeat ≤ process.clock then
    { process with nextHeartbeat := process.clock + kHeartbeatInterval }.setLoop (some .beating)
  else if process.node.state ≠ .leader ∧ process.electionDeadline ≤ process.clock then process.setLoop (some .electing)
  else process.setLoop (some .checking)

/-- Where StartElection goes on. -/
def elected (process : Process) (node : RaftNode) : LoopStage :=
  if process.node.running = false ∨ process.node.state = .leader then .checking
  else if node.state = .leader then .beating else .calling

/-- The first part of StartElection, under the lock. -/
def elect (process : Process) (timeout : Int) : Option Process := do
  let later ← process.perform .startElection timeout
  some (later.setLoop (some (process.elected later.node)))

/-- The first part of SendHeartbeats, under the lock. -/
def beat (process : Process) : Option Process := do
  let _ ← process.node.sendHeartbeats
  some (process.setLoop (some
    (if process.node.running = false ∨ process.node.state ≠ .leader then .checking else .calling)))

/-- One thread looked at by ReapRpcThreadsLocked. A thread that says it is finished is joined. -/
def reap (process : Process) (call : Nat) (left : List Nat) : Option Process :=
  match process.stage call with
  | .finished => none
  | .exited => some ({ process with rpcThreads := process.rpcThreads.erase call }.setLoop (some (.reaping left)))
  | .unborn | .calling | .replied => some (process.setLoop (some (.reaping left)))

/-- A thread for one more peer. -/
def spawn (process : Process) (left : Nat) : Process :=
  { process with
    rpcThreads := process.rpcThreads ++ [process.spawned]
    spawned := process.spawned + 1
    stage := Function.update process.stage process.spawned .calling
    loop := some (.spawning left) }

def act (process : Process) : ProcessStep → Option Process
  | .pass time => some { process with clock := process.clock + time }
  | .start fd timeout => if process.owner = .idle then process.start fd timeout else none
  | .launch =>
      if process.owner = .launching ∧ process.loop = none then some ((process.setLoop (some .checking)).setOwner .idle)
      else none
  | .stop => if process.owner = .idle then some process.beginStop else none
  | .stopServer =>
      if process.owner = .halting then do
        let server ← process.server.act .stop
        some ({ process with server := server }.setOwner .stopping)
      else none
  | .serverStopped =>
      if process.owner = .stopping ∧ process.server.stop = .idle then some (process.setOwner .joiningLoop) else none
  | .joinLoop =>
      if process.owner = .joiningLoop ∧ (process.loop = none ∨ process.loop = some .returned) then
        some ((process.setLoop none).setOwner .swapping)
      else none
  | .swapRpcThreads =>
      if process.owner = .swapping then some ({ process with rpcThreads := [] }.setOwner (.joiningCalls process.rpcThreads))
      else none
  | .joinRpcThread =>
      match process.owner with
      | .joiningCalls [] => some (process.setOwner .idle)
      | .joiningCalls (call :: rest) =>
          if process.stage call = .exited then some (process.setOwner (.joiningCalls rest)) else none
      | _ => none
  | .server step =>
      if step.byOwner = false then do
        let server ← process.server.act step
        some { process with server := server }
      else none
  | .request serial action timeout =>
      if action.isRequest = true ∧ process.server.stage serial = .serving ∧ serial ∉ process.handled then do
        let later ← process.perform action timeout
        some { later with handled := insert serial process.handled }
      else none
  | .direct action =>
      if action.isDirect = true then do
        let node ← process.node.act action
        some { process with node := node }
      else none
  | .check =>
      if process.loop = some .checking then
        some (process.setLoop (some
          (if process.node.running then
            .waiting (if process.node.state = .leader then process.nextHeartbeat else process.electionDeadline) false
          else .returned)))
      else none
  | .wake =>
      match process.loop with
      | some (.waiting _ _) => some process.wake
      | _ => none
  | .elect timeout => if process.loop = some .electing then process.elect timeout else none
  | .beat => if process.loop = some .beating then process.beat else none
  | .enter =>
      if process.loop = some .calling then
        some (process.setLoop (some (if process.node.running then .reaping process.rpcThreads else .checking)))
      else none
  | .reap =>
      match process.loop with
      | some (.reaping []) => some (process.setLoop (some (.spawning process.node.peers.length)))
      | some (.reaping (call :: left)) => process.reap call left
      | _ => none
  | .spawn =>
      match process.loop with
      | some (.spawning 0) => some (process.setLoop (some .checking))
      | some (.spawning (left + 1)) => some (process.spawn left)
      | _ => none
  | .reply call action timeout =>
      if action.isReply = true ∧ process.stage call = .calling then do
        let later ← process.perform action timeout
        some (later.setStage call .replied)
      else none
  | .giveUp call => if process.stage call = .calling then some (process.setStage call .replied) else none
  | .finish call => if process.stage call = .replied then some (process.setStage call .finished) else none
  | .exit call => if process.stage call = .finished then some (process.setStage call .exited) else none

def Initial (process : Process) : Prop :=
  ∃ nodeId peers onCommit, ∃ holder : Int → Option Holder, ∃ clock : Int, 0 ≤ clock ∧
    (∀ fd, holder fd = none ∨ holder fd = some .other) ∧
    process = ⟨.new nodeId peers onCommit, clock, 0, 0, 0, .idle, none, [], 0, fun _ => .unborn, .new holder, ∅⟩

abbrev Reaches : List Process → Process → Prop :=
  Run Initial fun process step later => process.act step = some later

inductive Turn (process : Process) : ProcessStep → Process → Prop where
  | pass {time : Nat} : Turn process (.pass time) { process with clock := process.clock + time }
  | started {fd timeout : Int} (idle : process.owner = .idle) (runs : process.node.running = true) :
      Turn process (.start fd timeout) process
  | start {fd timeout : Int} {server : RpcServer} {node : RaftNode} (idle : process.owner = .idle)
      (rests : process.node.running = false) (begun : (RpcServer.new process.server.holder).start fd = some server)
      (drawn : 150 ≤ timeout ∧ timeout ≤ 300) (acted : process.node.act .start = some node) :
      Turn process (.start fd timeout) { process.replaceNode .start timeout node with
        server := server
        handled := ∅
        owner := .launching }
  | launch (launches : process.owner = .launching) (free : process.loop = none) :
      Turn process .launch ((process.setLoop (some .checking)).setOwner .idle)
  | stopped (idle : process.owner = .idle) (rests : process.node.running = false) (free : process.loop = none) :
      Turn process .stop process
  | stop (idle : process.owner = .idle) (busy : ¬ (process.node.running = false ∧ process.loop = none)) :
      Turn process .stop { process with
        node := process.node.stop
        loop := process.loop.map LoopStage.notify
        owner := .halting }
  | stopServer {server : RpcServer} (halts : process.owner = .halting) (moved : process.server.act .stop = some server) :
      Turn process .stopServer ({ process with server := server }.setOwner .stopping)
  | serverStopped (stops : process.owner = .stopping) (idle : process.server.stop = .idle) :
      Turn process .serverStopped (process.setOwner .joiningLoop)
  | joinLoop (joins : process.owner = .joiningLoop) (ended : process.loop = none ∨ process.loop = some .returned) :
      Turn process .joinLoop ((process.setLoop none).setOwner .swapping)
  | swapRpcThreads (swaps : process.owner = .swapping) :
      Turn process .swapRpcThreads ({ process with rpcThreads := [] }.setOwner (.joiningCalls process.rpcThreads))
  | joinedAll (joins : process.owner = .joiningCalls []) : Turn process .joinRpcThread (process.setOwner .idle)
  | joinRpcThread {call : Nat} {rest : List Nat} (joins : process.owner = .joiningCalls (call :: rest))
      (ended : process.stage call = .exited) : Turn process .joinRpcThread (process.setOwner (.joiningCalls rest))
  | server {step : ServerStep} {server : RpcServer} (own : step.byOwner = false) (moved : process.server.act step = some server) :
      Turn process (.server step) { process with server := server }
  | request {serial : Nat} {action : NodeAction} {timeout : Int} {node : RaftNode} (kind : action.isRequest = true)
      (serves : process.server.stage serial = .serving) (first : serial ∉ process.handled)
      (drawn : 150 ≤ timeout ∧ timeout ≤ 300) (acted : process.node.act action = some node) :
      Turn process (.request serial action timeout)
        { process.replaceNode action timeout node with handled := insert serial process.handled }
  | direct {action : NodeAction} {node : RaftNode} (kind : action.isDirect = true) (acted : process.node.act action = some node) :
      Turn process (.direct action) { process with node := node }
  | sleep (loops : process.loop = some .checking) (runs : process.node.running = true) :
      Turn process .check (process.setLoop (some
        (.waiting (if process.node.state = .leader then process.nextHeartbeat else process.electionDeadline) false)))
  | leave {step : ProcessStep} (rests : process.node.running = false)
      (loops : process.loop = some .checking ∨ ∃ wake notified, process.loop = some (.waiting wake notified)) :
      Turn process step (process.setLoop (some .returned))
  | wakeBeating {wake : Int} {notified : Bool} (loops : process.loop = some (.waiting wake notified))
      (runs : process.node.running = true) (leads : process.node.state = .leader) :
      Turn process .wake ({ process with nextHeartbeat := process.clock + kHeartbeatInterval }.setLoop (some .beating))
  | wakeElecting {wake : Int} {notified : Bool} (loops : process.loop = some (.waiting wake notified))
      (runs : process.node.running = true) (follows : process.node.state ≠ .leader) (due : process.electionDeadline ≤ process.clock) :
      Turn process .wake (process.setLoop (some .electing))
  | wakeEarly {wake : Int} {notified : Bool} (loops : process.loop = some (.waiting wake notified))
      (runs : process.node.running = true) :
      Turn process .wake (process.setLoop (some .checking))
  | elect {timeout : Int} {node : RaftNode} (loops : process.loop = some .electing)
      (drawn : 150 ≤ timeout ∧ timeout ≤ 300) (acted : process.node.act .startElection = some node) :
      Turn process (.elect timeout)
        ((process.replaceNode .startElection timeout node).setLoop (some (process.elected node)))
  | beat {next : LoopStage} (loops : process.loop = some .beating) (goes : next = .checking ∨ next = .calling ∧ process.node.running = true) :
      Turn process .beat (process.setLoop (some next))
  | enter (loops : process.loop = some .calling) :
      Turn process .enter (process.setLoop (some (if process.node.running then .reaping process.rpcThreads else .checking)))
  | reapedAll (loops : process.loop = some (.reaping [])) :
      Turn process .reap (process.setLoop (some (.spawning process.node.peers.length)))
  | reap {call : Nat} {left : List Nat} (loops : process.loop = some (.reaping (call :: left))) (ended : process.stage call = .exited) :
      Turn process .reap ({ process with rpcThreads := process.rpcThreads.erase call }.setLoop (some (.reaping left)))
  | skip {call : Nat} {left : List Nat} (loops : process.loop = some (.reaping (call :: left))) :
      Turn process .reap (process.setLoop (some (.reaping left)))
  | spawnedAll (loops : process.loop = some (.spawning 0)) : Turn process .spawn (process.setLoop (some .checking))
  | spawn {left : Nat} (loops : process.loop = some (.spawning (left + 1))) : Turn process .spawn (process.spawn left)
  | reply {call : Nat} {action : NodeAction} {timeout : Int} {node : RaftNode} (kind : action.isReply = true)
      (calls : process.stage call = .calling) (drawn : 150 ≤ timeout ∧ timeout ≤ 300) (acted : process.node.act action = some node) :
      Turn process (.reply call action timeout) ((process.replaceNode action timeout node).setStage call .replied)
  | advance {step : ProcessStep} {call : Nat} {next : CallStage} (goes : (process.stage call).next = some next) :
      Turn process step (process.setStage call next)

variable {process later : Process} {step : ProcessStep}

theorem perform_eq {action : NodeAction} {timeout : Int} (performed : process.perform action timeout = some later) :
    ∃ node, (150 ≤ timeout ∧ timeout ≤ 300) ∧ process.node.act action = some node ∧ later = process.replaceNode action timeout node := by
  unfold perform at performed
  split_ifs at performed with drawn
  · obtain ⟨node, acted, rfl⟩ := Option.map_eq_some_iff.mp performed
    exact ⟨node, drawn, acted, rfl⟩

theorem wake_turn {wake : Int} {notified : Bool} (loops : process.loop = some (.waiting wake notified)) :
    Turn process .wake process.wake := by
  unfold Process.wake
  split_ifs with rests beats elects
  · exact .leave rests (.inr ⟨_, _, loops⟩)
  · exact .wakeBeating loops (Bool.not_eq_false _ ▸ rests) beats.1
  · exact .wakeElecting loops (Bool.not_eq_false _ ▸ rests) elects.1 elects.2
  · exact .wakeEarly loops (Bool.not_eq_false _ ▸ rests)

theorem turn_start {fd timeout : Int} (moved : process.act (.start fd timeout) = some later) : Turn process (.start fd timeout) later := by
  obtain ⟨idle, moved⟩ := Cluster.guarded moved
  unfold Process.start at moved
  split_ifs at moved with runs
  · obtain rfl := Option.some.inj moved
    exact .started idle runs
  · simp only [Option.bind_eq_bind, Option.bind_eq_some_iff, Option.some.injEq] at moved
    obtain ⟨server, begun, middle, performed, rfl⟩ := moved
    obtain ⟨node, drawn, acted, rfl⟩ := perform_eq performed
    exact .start idle (Bool.not_eq_true _ ▸ runs) begun drawn acted

theorem turn_stop (moved : process.act .stop = some later) : Turn process .stop later := by
  obtain ⟨idle, moved⟩ := Cluster.guarded moved
  obtain rfl := Option.some.inj moved
  unfold beginStop
  split_ifs with stopped
  · exact .stopped idle stopped.1 stopped.2
  · exact .stop idle stopped

theorem turn_joinRpcThread (moved : process.act .joinRpcThread = some later) : Turn process .joinRpcThread later := by
  simp only [act] at moved
  split at moved
  next joins =>
    obtain rfl := Option.some.inj moved
    exact .joinedAll joins
  next joins =>
    obtain ⟨ended, moved⟩ := Cluster.guarded moved
    obtain rfl := Option.some.inj moved
    exact .joinRpcThread joins ended
  · cases moved

theorem turn_request {serial : Nat} {action : NodeAction} {timeout : Int}
    (moved : process.act (.request serial action timeout) = some later) :
    Turn process (.request serial action timeout) later := by
  obtain ⟨⟨kind, serves, first⟩, moved⟩ := Cluster.guarded moved
  simp only [Option.bind_eq_bind, Option.bind_eq_some_iff, Option.some.injEq] at moved
  obtain ⟨middle, performed, rfl⟩ := moved
  obtain ⟨node, drawn, acted, rfl⟩ := perform_eq performed
  exact .request kind serves first drawn acted

theorem turn_check (moved : process.act .check = some later) : Turn process .check later := by
  obtain ⟨loops, moved⟩ := Cluster.guarded moved
  obtain rfl := Option.some.inj moved
  by_cases runs : process.node.running = true
  · rw [if_pos runs]
    exact .sleep loops runs
  · rw [if_neg runs]
    exact .leave (Bool.not_eq_true _ ▸ runs) (.inl loops)

theorem turn_elect {timeout : Int} (moved : process.act (.elect timeout) = some later) : Turn process (.elect timeout) later := by
  obtain ⟨loops, moved⟩ := Cluster.guarded moved
  simp only [Process.elect, Option.bind_eq_bind, Option.bind_eq_some_iff, Option.some.injEq] at moved
  obtain ⟨middle, performed, rfl⟩ := moved
  obtain ⟨node, drawn, acted, rfl⟩ := perform_eq performed
  exact .elect loops drawn acted

theorem turn_beat (moved : process.act .beat = some later) : Turn process .beat later := by
  obtain ⟨loops, moved⟩ := Cluster.guarded moved
  simp only [Process.beat, Option.bind_eq_bind, Option.bind_eq_some_iff, Option.some.injEq] at moved
  obtain ⟨requests, -, rfl⟩ := moved
  split_ifs with rests
  · exact .beat loops (.inl rfl)
  · exact .beat loops (.inr ⟨rfl, Bool.not_eq_false _ ▸ fun halted => rests (.inl halted)⟩)

theorem turn_reap (moved : process.act .reap = some later) : Turn process .reap later := by
  simp only [act] at moved
  split at moved
  next loops =>
    obtain rfl := Option.some.inj moved
    exact .reapedAll loops
  next call left loops =>
    cases stage : process.stage call <;> simp only [Process.reap, stage, reduceCtorEq, Option.some.injEq] at moved <;> subst moved
    · exact .skip loops
    · exact .skip loops
    · exact .skip loops
    · exact .reap loops stage
  · cases moved

theorem turn_spawn (moved : process.act .spawn = some later) : Turn process .spawn later := by
  simp only [act] at moved
  split at moved
  next loops =>
    obtain rfl := Option.some.inj moved
    exact .spawnedAll loops
  next loops =>
    obtain rfl := Option.some.inj moved
    exact .spawn loops
  · cases moved

theorem turn_reply {call : Nat} {action : NodeAction} {timeout : Int}
    (moved : process.act (.reply call action timeout) = some later) :
    Turn process (.reply call action timeout) later := by
  obtain ⟨⟨kind, calls⟩, moved⟩ := Cluster.guarded moved
  simp only [Option.bind_eq_bind, Option.bind_eq_some_iff, Option.some.injEq] at moved
  obtain ⟨middle, performed, rfl⟩ := moved
  obtain ⟨node, drawn, acted, rfl⟩ := perform_eq performed
  exact .reply kind calls drawn acted

theorem act_turn (moved : process.act step = some later) : Turn process step later := by
  cases step with
  | pass time =>
    obtain rfl := Option.some.inj moved
    exact .pass
  | start fd timeout => exact turn_start moved
  | launch =>
    obtain ⟨⟨launches, free⟩, moved⟩ := Cluster.guarded moved
    obtain rfl := Option.some.inj moved
    exact .launch launches free
  | stop => exact turn_stop moved
  | stopServer =>
    obtain ⟨halts, moved⟩ := Cluster.guarded moved
    simp only [Option.bind_eq_bind, Option.bind_eq_some_iff, Option.some.injEq] at moved
    obtain ⟨server, stopped, rfl⟩ := moved
    exact .stopServer halts stopped
  | serverStopped =>
    obtain ⟨⟨stops, idle⟩, moved⟩ := Cluster.guarded moved
    obtain rfl := Option.some.inj moved
    exact .serverStopped stops idle
  | joinLoop =>
    obtain ⟨⟨joins, ended⟩, moved⟩ := Cluster.guarded moved
    obtain rfl := Option.some.inj moved
    exact .joinLoop joins ended
  | swapRpcThreads =>
    obtain ⟨swaps, moved⟩ := Cluster.guarded moved
    obtain rfl := Option.some.inj moved
    exact .swapRpcThreads swaps
  | joinRpcThread => exact turn_joinRpcThread moved
  | server step =>
    obtain ⟨own, moved⟩ := Cluster.guarded moved
    simp only [Option.bind_eq_bind, Option.bind_eq_some_iff, Option.some.injEq] at moved
    obtain ⟨server, stepped, rfl⟩ := moved
    exact .server own stepped
  | request serial action timeout => exact turn_request moved
  | direct action =>
    obtain ⟨kind, moved⟩ := Cluster.guarded moved
    simp only [Option.bind_eq_bind, Option.bind_eq_some_iff, Option.some.injEq] at moved
    obtain ⟨node, acted, rfl⟩ := moved
    exact .direct kind acted
  | check => exact turn_check moved
  | wake =>
    simp only [act] at moved
    split at moved
    next loops =>
      obtain rfl := Option.some.inj moved
      exact wake_turn loops
    · cases moved
  | elect timeout => exact turn_elect moved
  | beat => exact turn_beat moved
  | enter =>
    obtain ⟨loops, moved⟩ := Cluster.guarded moved
    obtain rfl := Option.some.inj moved
    exact .enter loops
  | reap => exact turn_reap moved
  | spawn => exact turn_spawn moved
  | reply call action timeout => exact turn_reply moved
  | giveUp call =>
    obtain ⟨calls, moved⟩ := Cluster.guarded moved
    obtain rfl := Option.some.inj moved
    exact .advance (by rw [calls]; rfl)
  | finish call =>
    obtain ⟨replied, moved⟩ := Cluster.guarded moved
    obtain rfl := Option.some.inj moved
    exact .advance (by rw [replied]; rfl)
  | exit call =>
    obtain ⟨finished, moved⟩ := Cluster.guarded moved
    obtain rfl := Option.some.inj moved
    exact .advance (by rw [finished]; rfl)

end Process

end QuorumDB.Raft
