import QuorumDB.Lib.Attain
import Mathlib.Data.Finset.Erase
import Mathlib.Data.Finset.Insert
import Mathlib.Logic.Function.Basic

/-!
The threads and descriptors of a server (`rpc/rpc_server.cpp`): Start and Stop, the loop that accepts
connections, and a thread for each connection. A step is what runs under one lock, or one call of
the system. Start and Stop are called by one thread, which the server's owner sees to.
-/

namespace QuorumDB.Rpc
open Execution

inductive Holder where
  | listener
  | connection (serial : Nat)
  | other
  deriving DecidableEq, Repr

inductive AcceptStage where
  | polling
  | selecting (listener : Int)
  | accepted (serial : Nat) (fd : Int)
  | spawning (serial : Nat) (fd : Int)
  | returned
  deriving DecidableEq, Repr

/-- Where `HandleConnection` is on a connection. It serves until it closes the descriptor, and
takes it out of `active_connections_` after that. -/
inductive ClientStage where
  | unborn
  | serving
  | erasing
  | returned
  deriving DecidableEq, Repr

inductive StopStage where
  | idle
  | closing (listener : Int) (connections : Finset Int)
  | shutting (connections : Finset Int)
  | swapping
  | joining (threads : List Nat)
  deriving DecidableEq

/-- Connections are numbered in the order they are accepted. `holder` and `shut`, the connections that
were shut down, belong to the system. -/
structure RpcServer where
  running : Bool
  listenFd : Int
  activeConnections : Finset Int
  acceptThread : Option AcceptStage
  clientThreads : List Nat
  stop : StopStage
  accepted : Nat
  fd : Nat → Int
  stage : Nat → ClientStage
  holder : Int → Option Holder
  shut : Finset Nat

inductive ServerStep where
  | start (fd : Int)
  | stop
  | closeListener
  | shutdown (fd : Int)
  | joinAcceptThread
  | swapClientThreads
  | joinClientThread
  | poll
  | timeOut
  | fail
  | accept (fd : Int)
  | register
  | spawn
  | close (serial : Nat)
  | erase (serial : Nat)
  | openOther (fd : Int)
  | closeOther (fd : Int)
  deriving DecidableEq, Repr

namespace RpcServer

def new (holder : Int → Option Holder) : RpcServer where
  running := false
  listenFd := -1
  activeConnections := ∅
  acceptThread := none
  clientThreads := []
  stop := .idle
  accepted := 0
  fd := fun _ => -1
  stage := fun _ => .unborn
  holder := holder
  shut := ∅

def Unused (server : RpcServer) (fd : Int) : Prop :=
  0 ≤ fd ∧ server.holder fd = none

instance (server : RpcServer) (fd : Int) : Decidable (server.Unused fd) := inferInstanceAs (Decidable (_ ∧ _))

/-- `Start` where all calls succeed. `accept_thread_` must not be joinable when it is assigned. -/
def start (server : RpcServer) (fd : Int) : Option RpcServer :=
  if server.running then some server
  else if server.Unused fd ∧ server.acceptThread = none then some { server with
    listenFd := fd
    running := true
    acceptThread := some .polling
    holder := Function.update server.holder fd (some .listener) }
  else none

/-- The part of `Stop` under the lock. -/
def beginStop (server : RpcServer) : RpcServer :=
  if server.running = false ∧ server.acceptThread = none then server
  else { server with
    running := false
    listenFd := -1
    stop := .closing server.listenFd server.activeConnections }

def closeListener (server : RpcServer) (listener : Int) (connections : Finset Int) : RpcServer :=
  { server with
    holder := if 0 ≤ listener then Function.update server.holder listener none else server.holder
    stop := .shutting connections }

/-- `shutdown` on a descriptor reaches whatever holds it by now. -/
def shutdown (server : RpcServer) (fd : Int) (connections : Finset Int) : RpcServer :=
  { server with
    shut := match server.holder fd with
      | some (.connection serial) => insert serial server.shut
      | _ => server.shut
    stop := .shutting (connections.erase fd) }

/-- The lock taken after `accept` gave a connection. -/
def register (server : RpcServer) (serial : Nat) (fd : Int) : RpcServer :=
  if server.running then { server with
    activeConnections := insert fd server.activeConnections
    acceptThread := some (.spawning serial fd) }
  else { server with
    holder := Function.update server.holder fd none
    acceptThread := some .returned }

def takeConnection (server : RpcServer) (fd : Int) : RpcServer :=
  { server with
    holder := Function.update server.holder fd (some (.connection server.accepted))
    accepted := server.accepted + 1
    acceptThread := some (.accepted server.accepted fd) }

def spawn (server : RpcServer) (serial : Nat) (fd : Int) : RpcServer :=
  { server with
    clientThreads := server.clientThreads ++ [serial]
    fd := Function.update server.fd serial fd
    stage := Function.update server.stage serial .serving
    acceptThread := some .polling }

/-- The end of serving a connection, whatever became of its request. The recv before it has returned,
for which the thread may have had to wait. -/
def closeConnection (server : RpcServer) (serial : Nat) : RpcServer :=
  { server with
    holder := Function.update server.holder (server.fd serial) none
    stage := Function.update server.stage serial .erasing }

def eraseConnection (server : RpcServer) (serial : Nat) : RpcServer :=
  { server with
    activeConnections := server.activeConnections.erase (server.fd serial)
    stage := Function.update server.stage serial .returned }

def setStop (server : RpcServer) (stop : StopStage) : RpcServer :=
  { server with stop := stop }

def setAcceptThread (server : RpcServer) (stage : Option AcceptStage) : RpcServer :=
  { server with acceptThread := stage }

def setHolder (server : RpcServer) (fd : Int) (holder : Option Holder) : RpcServer :=
  { server with holder := Function.update server.holder fd holder }

def act (server : RpcServer) : ServerStep → Option RpcServer
  | .start fd => if server.stop = .idle then server.start fd else none
  | .stop => if server.stop = .idle then some server.beginStop else none
  | .closeListener =>
      match server.stop with
      | .closing listener connections => some (server.closeListener listener connections)
      | _ => none
  | .shutdown fd =>
      match server.stop with
      | .shutting connections => if fd ∈ connections then some (server.shutdown fd connections) else none
      | _ => none
  | .joinAcceptThread =>
      match server.stop, server.acceptThread with
      | .shutting connections, some .returned =>
          if connections = ∅ then some ((server.setAcceptThread none).setStop .swapping) else none
      | .shutting connections, none => if connections = ∅ then some (server.setStop .swapping) else none
      | _, _ => none
  | .swapClientThreads =>
      if server.stop = .swapping then some { server with stop := .joining server.clientThreads, clientThreads := [] }
      else none
  | .joinClientThread =>
      match server.stop with
      | .joining [] => some (server.setStop .idle)
      | .joining (serial :: rest) => if server.stage serial = .returned then some (server.setStop (.joining rest)) else none
      | _ => none
  | .poll =>
      if server.acceptThread = some .polling then
        some (server.setAcceptThread (some (if server.running then .selecting server.listenFd else .returned)))
      else none
  | .timeOut =>
      match server.acceptThread with
      | some (.selecting _) => some (server.setAcceptThread (some .polling))
      | _ => none
  | .fail =>
      match server.acceptThread with
      | some (.selecting _) => some (server.setAcceptThread (some (if server.running then .polling else .returned)))
      | _ => none
  | .accept fd =>
      match server.acceptThread with
      | some (.selecting listener) =>
          if (server.holder listener = some .listener ∨ server.holder listener = some .other) ∧ server.Unused fd then
            some (server.takeConnection fd)
          else none
      | _ => none
  | .register =>
      match server.acceptThread with
      | some (.accepted serial fd) => some (server.register serial fd)
      | _ => none
  | .spawn =>
      match server.acceptThread with
      | some (.spawning serial fd) => some (server.spawn serial fd)
      | _ => none
  | .close serial => if server.stage serial = .serving then some (server.closeConnection serial) else none
  | .erase serial => if server.stage serial = .erasing then some (server.eraseConnection serial) else none
  | .openOther fd => if server.Unused fd then some (server.setHolder fd (some .other)) else none
  | .closeOther fd => if server.holder fd = some .other then some (server.setHolder fd none) else none

def Initial (server : RpcServer) : Prop :=
  ∃ holder : Int → Option Holder, (∀ fd, holder fd = none ∨ holder fd = some .other) ∧ server = .new holder

abbrev Reaches : List RpcServer → RpcServer → Prop :=
  Run Initial fun server step later => server.act step = some later

/-- How Start, Stop and the loop stand to each other, and who has the listening descriptor. -/
structure Controlled (server : RpcServer) : Prop where
  quiet : server.stop ≠ .idle → server.running = false
  listening : server.running = true → 0 ≤ server.listenFd ∧ server.holder server.listenFd = some .listener
  accepting : server.running = true → server.acceptThread ≠ none ∧ server.acceptThread ≠ some .returned
  stopped : server.stop = .idle → server.running = false → server.acceptThread = none ∧ server.clientThreads = []
  listener : ∀ fd, server.holder fd = some .listener → server.running = true ∧ fd = server.listenFd ∨
    ∃ connections, server.stop = .closing fd connections
  closing : ∀ listener connections, server.stop = .closing listener connections →
    0 ≤ listener ∧ server.holder listener = some .listener
  joined : server.stop = .swapping → server.acceptThread = none
  drained : ∀ threads, server.stop = .joining threads → server.acceptThread = none ∧ server.clientThreads = []

/-- Each connection has its descriptor from the call that accepts it to the one that closes it. -/
structure Owned (server : RpcServer) : Prop where
  held : ∀ fd serial, server.holder fd = some (.connection serial) → server.stage serial = .serving ∧ server.fd serial = fd ∨
    server.acceptThread = some (.accepted serial fd) ∨ server.acceptThread = some (.spawning serial fd)
  served : ∀ serial, server.stage serial = .serving → server.holder (server.fd serial) = some (.connection serial)
  pending : ∀ serial fd, server.acceptThread = some (.accepted serial fd) ∨ server.acceptThread = some (.spawning serial fd) →
    server.holder fd = some (.connection serial) ∧ server.stage serial = .unborn ∧ serial < server.accepted
  unborn : ∀ serial, server.accepted ≤ serial → server.stage serial = .unborn

def Busy (server : RpcServer) (serial : Nat) : Prop :=
  server.stage serial = .serving ∨ server.stage serial = .erasing

/-- What the two lists of the server say of its connections. -/
structure Booked (server : RpcServer) : Prop where
  threads : ∀ serial, server.Busy serial → serial ∈ server.clientThreads ∨
    ∃ threads, server.stop = .joining threads ∧ serial ∈ threads
  begun : ∀ serial, (serial ∈ server.clientThreads ∨ ∃ threads, server.stop = .joining threads ∧ serial ∈ threads) →
    server.stage serial ≠ .unborn
  connections : ∀ fd ∈ server.activeConnections, (∃ serial, server.Busy serial ∧ server.fd serial = fd) ∨
    ∃ serial, server.acceptThread = some (.spawning serial fd)

structure Sound (server : RpcServer) : Prop extends Controlled server, Owned server, Booked server

inductive Turn (server : RpcServer) : ServerStep → RpcServer → Prop where
  | same {step : ServerStep} (idle : server.stop = .idle) (owned : step = .stop ∨ ∃ fd, step = .start fd) : Turn server step server
  | start {fd : Int} (idle : server.stop = .idle) (stopped : server.running = false) (unused : server.Unused fd)
      (unjoined : server.acceptThread = none) : Turn server (.start fd) { server with
        listenFd := fd
        running := true
        acceptThread := some .polling
        holder := Function.update server.holder fd (some .listener) }
  | stop (idle : server.stop = .idle) (busy : ¬ (server.running = false ∧ server.acceptThread = none)) :
      Turn server .stop { server with
        running := false
        listenFd := -1
        stop := .closing server.listenFd server.activeConnections }
  | closeListener {listener : Int} {connections : Finset Int} (stops : server.stop = .closing listener connections) :
      Turn server .closeListener (server.closeListener listener connections)
  | shutdown {fd : Int} {connections : Finset Int} (stops : server.stop = .shutting connections) (listed : fd ∈ connections) :
      Turn server (.shutdown fd) (server.shutdown fd connections)
  | joinAcceptThread (stops : server.stop = .shutting ∅) (ended : server.acceptThread = some .returned ∨ server.acceptThread = none) :
      Turn server .joinAcceptThread ((server.setAcceptThread none).setStop .swapping)
  | swapClientThreads (stops : server.stop = .swapping) :
      Turn server .swapClientThreads { server with stop := .joining server.clientThreads, clientThreads := [] }
  | joinedAll (stops : server.stop = .joining []) : Turn server .joinClientThread (server.setStop .idle)
  | joinClientThread {serial : Nat} {rest : List Nat} (stops : server.stop = .joining (serial :: rest))
      (ended : server.stage serial = .returned) : Turn server .joinClientThread (server.setStop (.joining rest))
  | select (loops : server.acceptThread = some .polling) (runs : server.running = true) :
      Turn server .poll (server.setAcceptThread (some (.selecting server.listenFd)))
  | again {step : ServerStep} {listener : Int} (loops : server.acceptThread = some (.selecting listener)) :
      Turn server step (server.setAcceptThread (some .polling))
  | leave {step : ServerStep} {stage : AcceptStage} (loops : server.acceptThread = some stage)
      (free : stage = .polling ∨ ∃ listener, stage = .selecting listener) (halted : server.running = false) :
      Turn server step (server.setAcceptThread (some .returned))
  | accept {fd listener : Int} (loops : server.acceptThread = some (.selecting listener)) (unused : server.Unused fd) :
      Turn server (.accept fd) (server.takeConnection fd)
  | register {serial : Nat} {fd : Int} (loops : server.acceptThread = some (.accepted serial fd)) (runs : server.running = true) :
      Turn server .register { server with
        activeConnections := insert fd server.activeConnections
        acceptThread := some (.spawning serial fd) }
  | refuse {serial : Nat} {fd : Int} (loops : server.acceptThread = some (.accepted serial fd)) (stopped : server.running = false) :
      Turn server .register { server with
        holder := Function.update server.holder fd none
        acceptThread := some .returned }
  | spawn {serial : Nat} {fd : Int} (loops : server.acceptThread = some (.spawning serial fd)) :
      Turn server .spawn (server.spawn serial fd)
  | close {serial : Nat} (serves : server.stage serial = .serving) : Turn server (.close serial) (server.closeConnection serial)
  | erase {serial : Nat} (erases : server.stage serial = .erasing) : Turn server (.erase serial) (server.eraseConnection serial)
  | openOther {fd : Int} (unused : server.Unused fd) : Turn server (.openOther fd) (server.setHolder fd (some .other))
  | closeOther {fd : Int} (held : server.holder fd = some .other) : Turn server (.closeOther fd) (server.setHolder fd none)

variable {server later : RpcServer} {step : ServerStep}

theorem guarded {condition : Prop} [Decidable condition] {value : Option RpcServer}
    (ran : (if condition then value else none) = some later) : condition ∧ value = some later := by
  by_cases holds : condition
  · rw [if_pos holds] at ran
    exact ⟨holds, ran⟩
  · rw [if_neg holds] at ran
    cases ran

theorem turn_start {fd : Int} (moved : server.act (.start fd) = some later) : Turn server (.start fd) later := by
  obtain ⟨idle, moved⟩ := guarded moved
  unfold start at moved
  split_ifs at moved with running free
  · obtain rfl := Option.some.inj moved
    exact .same idle (.inr ⟨fd, rfl⟩)
  · obtain rfl := Option.some.inj moved
    exact .start idle (by simpa using running) free.1 free.2

theorem turn_stop (moved : server.act .stop = some later) : Turn server .stop later := by
  obtain ⟨idle, moved⟩ := guarded moved
  obtain rfl := Option.some.inj moved
  unfold beginStop
  split_ifs with busy
  · exact .same idle (.inl rfl)
  · exact .stop idle busy

theorem turn_joinAcceptThread (moved : server.act .joinAcceptThread = some later) : Turn server .joinAcceptThread later := by
  simp only [act] at moved
  split at moved
  next stops ended =>
    obtain ⟨rfl, moved⟩ := guarded moved
    obtain rfl := Option.some.inj moved
    exact .joinAcceptThread stops (.inl ended)
  next stops ended =>
    obtain ⟨rfl, moved⟩ := guarded moved
    obtain rfl := Option.some.inj moved
    have same : server.setAcceptThread none = server := by
      unfold setAcceptThread
      rw [← ended]
    have turn := Turn.joinAcceptThread stops (.inr ended)
    rw [same] at turn
    exact turn
  · cases moved

theorem turn_joinClientThread (moved : server.act .joinClientThread = some later) : Turn server .joinClientThread later := by
  simp only [act] at moved
  split at moved
  next stops =>
    obtain rfl := Option.some.inj moved
    exact .joinedAll stops
  next stops =>
    obtain ⟨ended, moved⟩ := guarded moved
    obtain rfl := Option.some.inj moved
    exact .joinClientThread stops ended
  · cases moved

theorem turn_poll (moved : server.act .poll = some later) : Turn server .poll later := by
  obtain ⟨loops, moved⟩ := guarded moved
  obtain rfl := Option.some.inj moved
  cases runs : server.running with
  | true => exact .select loops runs
  | false => exact .leave loops (.inl rfl) runs

theorem turn_fail (moved : server.act .fail = some later) : Turn server .fail later := by
  simp only [act] at moved
  split at moved
  next loops =>
    obtain rfl := Option.some.inj moved
    cases runs : server.running with
    | true => exact .again loops
    | false => exact .leave loops (.inr ⟨_, rfl⟩) runs
  · cases moved

theorem turn_register (moved : server.act .register = some later) : Turn server .register later := by
  simp only [act] at moved
  split at moved
  next loops =>
    obtain rfl := Option.some.inj moved
    unfold register
    split_ifs with runs
    · exact .register loops runs
    · exact .refuse loops (by simpa using runs)
  · cases moved

theorem act_turn (moved : server.act step = some later) : Turn server step later := by
  cases step with
  | start fd => exact turn_start moved
  | stop => exact turn_stop moved
  | closeListener =>
    simp only [act] at moved
    split at moved
    next stops =>
      obtain rfl := Option.some.inj moved
      exact .closeListener stops
    · cases moved
  | shutdown fd =>
    simp only [act] at moved
    split at moved
    next stops =>
      obtain ⟨listed, moved⟩ := guarded moved
      obtain rfl := Option.some.inj moved
      exact .shutdown stops listed
    · cases moved
  | joinAcceptThread => exact turn_joinAcceptThread moved
  | swapClientThreads =>
    obtain ⟨stops, moved⟩ := guarded moved
    obtain rfl := Option.some.inj moved
    exact .swapClientThreads stops
  | joinClientThread => exact turn_joinClientThread moved
  | poll => exact turn_poll moved
  | timeOut =>
    simp only [act] at moved
    split at moved
    next loops =>
      obtain rfl := Option.some.inj moved
      exact .again loops
    · cases moved
  | fail => exact turn_fail moved
  | accept fd =>
    simp only [act] at moved
    split at moved
    next loops =>
      obtain ⟨free, moved⟩ := guarded moved
      obtain rfl := Option.some.inj moved
      exact .accept loops free.2
    · cases moved
  | register => exact turn_register moved
  | spawn =>
    simp only [act] at moved
    split at moved
    next loops =>
      obtain rfl := Option.some.inj moved
      exact .spawn loops
    · cases moved
  | close serial =>
    obtain ⟨serves, moved⟩ := guarded moved
    obtain rfl := Option.some.inj moved
    exact .close serves
  | erase serial =>
    obtain ⟨erases, moved⟩ := guarded moved
    obtain rfl := Option.some.inj moved
    exact .erase erases
  | openOther fd =>
    obtain ⟨unused, moved⟩ := guarded moved
    obtain rfl := Option.some.inj moved
    exact .openOther unused
  | closeOther fd =>
    obtain ⟨held, moved⟩ := guarded moved
    obtain rfl := Option.some.inj moved
    exact .closeOther held

theorem Controlled.frame (known : server.Controlled) (running : later.running = server.running)
    (listenFd : later.listenFd = server.listenFd) (stop : later.stop = server.stop)
    (listener : ∀ fd, later.holder fd = some .listener ↔ server.holder fd = some .listener)
    (loops : later.acceptThread = server.acceptThread ∧ later.clientThreads = server.clientThreads ∨
      server.acceptThread ≠ none ∧ later.acceptThread ≠ none ∧ (server.running = true → later.acceptThread ≠ some .returned)) :
    later.Controlled := by
  -- where the loop moves it is there, and Stop has not joined it
  have ends : ∀ {claim : Prop}, server.acceptThread = none → later.acceptThread = server.acceptThread ∨ claim := by
    intro claim ended
    rcases loops with ⟨same, -⟩ | ⟨there, -⟩
    · exact .inl same
    · exact absurd ended there
  have drains : server.acceptThread = none ∧ server.clientThreads = [] → later.acceptThread = none ∧ later.clientThreads = [] := by
    rintro ⟨ended, drained⟩
    rcases loops with ⟨sameLoop, sameThreads⟩ | ⟨there, -⟩
    · exact ⟨sameLoop.trans ended, sameThreads.trans drained⟩
    · exact absurd ended there
  constructor
  · rw [stop, running]
    exact known.quiet
  · rw [running, listenFd, listener]
    exact known.listening
  · rw [running]
    intro runs
    rcases loops with ⟨same, -⟩ | ⟨-, there, stays⟩
    · rw [same]
      exact known.accepting runs
    · exact ⟨there, stays runs⟩
  · rw [stop, running]
    exact fun idle halted => drains (known.stopped idle halted)
  · intro fd held
    rw [running, listenFd, stop]
    exact known.listener fd ((listener fd).mp held)
  · intro listening connections closing
    rw [listener]
    exact known.closing listening connections (stop.symm.trans closing)
  · rw [stop]
    intro swaps
    have ended := known.joined swaps
    rcases loops with ⟨same, -⟩ | ⟨there, -⟩
    · exact same.trans ended
    · exact absurd ended there
  · rw [stop]
    exact fun threads joining => drains (known.drained threads joining)

theorem update_listener {target : Int} {owner : Option Holder} (before : server.holder target ≠ some .listener)
    (after : owner ≠ some .listener) (fd : Int) :
    Function.update server.holder target owner fd = some .listener ↔ server.holder fd = some .listener := by
  by_cases same : fd = target
  · subst same
    rw [Function.update_self]
    exact ⟨fun held => absurd held after, fun held => absurd held before⟩
  · rw [Function.update_of_ne same]

theorem Controlled.closed (control : server.Controlled) (halted : server.running = false)
    (closed : ∀ listener connections, server.stop ≠ .closing listener connections) (fd : Int) :
    server.holder fd ≠ some .listener := by
  intro held
  rcases control.listener fd held with ⟨runs, -⟩ | ⟨connections, closing⟩
  · cases halted.symm.trans runs
  · exact closed fd connections closing

theorem controlled_step (known : server.Sound) (turn : Turn server step later) : later.Controlled := by
  have control := known.toControlled
  cases turn with
  | same => exact control
  | @start fd idle halted unused unjoined =>
    have drained := (control.stopped idle halted).2
    refine ⟨fun stops => absurd idle stops, fun _ => ⟨unused.1, Function.update_self ..⟩, fun _ => ⟨nofun, nofun⟩,
      fun _ => nofun, fun other held => ?_, fun listener connections closing => ?_, fun swaps => ?_, fun threads joining => ?_⟩
    · by_cases same : other = fd
      · exact .inl ⟨rfl, same⟩
      · replace held := (Function.update_of_ne same (some Holder.listener) server.holder).symm.trans held
        rcases control.listener other held with ⟨runs, -⟩ | ⟨connections, closing⟩
        · cases halted.symm.trans runs
        · cases idle.symm.trans closing
    · cases idle.symm.trans closing
    · cases idle.symm.trans swaps
    · cases idle.symm.trans joining
  | stop idle busy =>
    have running : server.running = true := by
      by_contra halted
      have halted := Bool.eq_false_of_not_eq_true halted
      exact busy ⟨halted, (control.stopped idle halted).1⟩
    refine ⟨fun _ => rfl, nofun, nofun, nofun, fun fd held => ?_, fun listener connections stops => ?_, nofun, nofun⟩
    · rcases control.listener fd held with ⟨-, rfl⟩ | ⟨connections, stops⟩
      · exact .inr ⟨_, rfl⟩
      · cases idle.symm.trans stops
    · obtain ⟨rfl, -⟩ := StopStage.closing.inj stops
      exact control.listening running
  | @closeListener listener connections stops =>
    obtain ⟨valid, mine⟩ := control.closing listener connections stops
    have halted := control.quiet (by rw [stops]; nofun)
    refine ⟨fun _ => halted, fun runs => ?_, fun runs => ?_, nofun, fun fd held => ?_, nofun, nofun, nofun⟩
    · cases halted.symm.trans runs
    · cases halted.symm.trans runs
    · unfold RpcServer.closeListener at held
      simp only [if_pos valid] at held
      by_cases same : fd = listener
      · rw [same, Function.update_self] at held
        cases held
      · rw [Function.update_of_ne same] at held
        rcases control.listener fd held with ⟨runs, -⟩ | ⟨other, closing⟩
        · cases halted.symm.trans runs
        · exact absurd (StopStage.closing.inj (stops.symm.trans closing)).1.symm same
  | shutdown stops listed =>
    have halted := control.quiet (by rw [stops]; nofun)
    have closed := control.closed halted (by rw [stops]; nofun)
    exact ⟨fun _ => halted, control.listening, control.accepting, nofun, fun fd held => absurd held (closed fd), nofun, nofun, nofun⟩
  | joinAcceptThread stops ended =>
    have halted := control.quiet (by rw [stops]; nofun)
    have closed := control.closed halted (by rw [stops]; nofun)
    refine ⟨fun _ => halted, control.listening, fun runs => ?_, nofun, fun fd held => absurd held (closed fd), nofun, fun _ => rfl, nofun⟩
    cases halted.symm.trans runs
  | swapClientThreads stops =>
    have halted := control.quiet (by rw [stops]; nofun)
    have closed := control.closed halted (by rw [stops]; nofun)
    exact ⟨fun _ => halted, control.listening, control.accepting, nofun, fun fd held => absurd held (closed fd), nofun, nofun,
      fun _ _ => ⟨control.joined stops, rfl⟩⟩
  | joinedAll stops =>
    have halted := control.quiet (by rw [stops]; nofun)
    have closed := control.closed halted (by rw [stops]; nofun)
    exact ⟨fun _ => halted, control.listening, control.accepting, fun _ _ => control.drained [] stops,
      fun fd held => absurd held (closed fd), nofun, nofun, nofun⟩
  | joinClientThread stops ended =>
    have halted := control.quiet (by rw [stops]; nofun)
    have closed := control.closed halted (by rw [stops]; nofun)
    exact ⟨fun _ => halted, control.listening, control.accepting, nofun, fun fd held => absurd held (closed fd), nofun, nofun,
      fun _ _ => control.drained _ stops⟩
  | select loops runs => exact control.frame rfl rfl rfl (fun _ => Iff.rfl) (.inr ⟨by rw [loops]; nofun, nofun, fun _ => nofun⟩)
  | again loops => exact control.frame rfl rfl rfl (fun _ => Iff.rfl) (.inr ⟨by rw [loops]; nofun, nofun, fun _ => nofun⟩)
  | leave loops free halted =>
    refine control.frame rfl rfl rfl (fun _ => Iff.rfl) (.inr ⟨by rw [loops]; nofun, nofun, fun runs => ?_⟩)
    cases halted.symm.trans runs
  | accept loops unused =>
    refine control.frame rfl rfl rfl ?_ (.inr ⟨by rw [loops]; nofun, nofun, fun _ => nofun⟩)
    exact update_listener (by rw [unused.2]; nofun) nofun
  | register loops runs => exact control.frame rfl rfl rfl (fun _ => Iff.rfl) (.inr ⟨by rw [loops]; nofun, nofun, fun _ => nofun⟩)
  | refuse loops halted =>
    -- the descriptor that is closed is the connection's, and not the listening one
    have pending := known.pending _ _ (.inl loops)
    refine control.frame rfl rfl rfl ?_ (.inr ⟨by rw [loops]; nofun, nofun, fun runs => ?_⟩)
    · exact update_listener (by rw [pending.1]; nofun) nofun
    · cases halted.symm.trans runs
  | spawn loops => exact control.frame rfl rfl rfl (fun _ => Iff.rfl) (.inr ⟨by rw [loops]; nofun, nofun, fun _ => nofun⟩)
  | close serves =>
    refine control.frame rfl rfl rfl ?_ (.inl ⟨rfl, rfl⟩)
    exact update_listener (by rw [known.served _ serves]; nofun) nofun
  | erase => exact control.frame rfl rfl rfl (fun _ => Iff.rfl) (.inl ⟨rfl, rfl⟩)
  | openOther unused =>
    refine control.frame rfl rfl rfl ?_ (.inl ⟨rfl, rfl⟩)
    exact update_listener (by rw [unused.2]; nofun) nofun
  | closeOther held =>
    refine control.frame rfl rfl rfl ?_ (.inl ⟨rfl, rfl⟩)
    exact update_listener (by rw [held]; nofun) nofun

theorem owned_step (known : server.Sound) (turn : Turn server step later) : later.Owned := by
  obtain ⟨held, served, pending, unborn⟩ := known.toOwned
  cases turn with
  | same => exact known.toOwned
  | start idle halted unused unjoined => constructor <;> simp only <;> grind [Function.update, Unused]
  | stop | shutdown | swapClientThreads | joinedAll | joinClientThread => exact ⟨held, served, pending, unborn⟩
  | closeListener stops =>
    -- no connection has the listening descriptor
    have closing := known.closing _ _ stops
    constructor <;> simp only [closeListener] <;> grind [Function.update]
  | joinAcceptThread stops ended => constructor <;> simp only [setAcceptThread, setStop] <;> grind
  | select loops runs => constructor <;> simp only [setAcceptThread] <;> grind
  | again loops => constructor <;> simp only [setAcceptThread] <;> grind
  | leave loops free halted => constructor <;> simp only [setAcceptThread] <;> grind
  | accept loops unused => constructor <;> simp only [takeConnection] <;> grind [Function.update, Unused]
  | register loops runs => constructor <;> simp only <;> grind
  | refuse loops halted => constructor <;> simp only <;> grind [Function.update]
  | spawn loops => constructor <;> simp only [RpcServer.spawn] <;> grind [Function.update]
  | close serves => constructor <;> simp only [closeConnection] <;> grind [Function.update]
  | erase erases => constructor <;> simp only [eraseConnection] <;> grind [Function.update]
  | openOther unused => constructor <;> simp only [setHolder] <;> grind [Function.update, Unused]
  | closeOther held => constructor <;> simp only [setHolder] <;> grind [Function.update]

theorem booked_step (known : server.Sound) (turn : Turn server step later) : later.Booked := by
  obtain ⟨threads, begun, connections⟩ := known.toBooked
  cases turn with
  | same => exact known.toBooked
  | openOther | closeOther => exact ⟨threads, begun, connections⟩
  | start idle halted unused unjoined => constructor <;> simp only [Busy] at * <;> grind
  | stop idle busy => constructor <;> simp only [Busy] at * <;> grind
  | closeListener stops => constructor <;> simp only [closeListener, Busy] at * <;> grind
  | shutdown stops listed => constructor <;> simp only [RpcServer.shutdown, Busy] at * <;> grind
  | swapClientThreads => constructor <;> simp only [Busy] at * <;> grind
  | joinedAll stops => constructor <;> simp only [setStop, Busy] at * <;> grind
  | joinClientThread stops ended => constructor <;> simp only [setStop, Busy] at * <;> grind
  | joinAcceptThread stops ended => constructor <;> simp only [setAcceptThread, setStop, Busy] at * <;> grind
  | select loops runs => constructor <;> simp only [setAcceptThread, Busy] at * <;> grind
  | again loops => constructor <;> simp only [setAcceptThread, Busy] at * <;> grind
  | leave loops free halted => constructor <;> simp only [setAcceptThread, Busy] at * <;> grind
  | accept loops unused => constructor <;> simp only [takeConnection, Busy] at * <;> grind
  | refuse loops halted => constructor <;> simp only [Busy] at * <;> grind
  | @register serial fd loops runs =>
    refine ⟨threads, begun, fun other member => ?_⟩
    rcases Finset.mem_insert.mp member with rfl | old
    · exact .inr ⟨serial, rfl⟩
    · rcases connections other old with busy | ⟨waiting, spawning⟩
      · exact .inl busy
      · cases loops.symm.trans spawning
  | @spawn serial fd loops =>
    have pending := known.pending serial fd (.inr loops)
    have unborn : ¬ server.Busy serial := by
      rintro (serves | erases)
      · cases pending.2.1.symm.trans serves
      · cases pending.2.1.symm.trans erases
    have placed : (server.spawn serial fd).Busy serial ∧ (server.spawn serial fd).fd serial = fd :=
      ⟨.inl (Function.update_self ..), Function.update_self ..⟩
    have others : ∀ {other}, other ≠ serial → (server.spawn serial fd).stage other = server.stage other ∧
        (server.spawn serial fd).fd other = server.fd other :=
      fun different => ⟨Function.update_of_ne different _ _, Function.update_of_ne different _ _⟩
    refine ⟨fun other busy => ?_, fun other listed => ?_, fun other member => ?_⟩
    · by_cases same : other = serial
      · exact .inl (List.mem_append_right _ (List.mem_singleton.mpr same))
      · unfold Busy at busy
        rw [(others same).1] at busy
        exact (threads other busy).imp_left (List.mem_append_left _)
    · by_cases same : other = serial
      · subst same
        rw [show (server.spawn other fd).stage other = .serving from Function.update_self ..]
        decide
      · rw [(others same).1]
        apply begun
        apply listed.imp_left
        intro member
        rcases List.mem_append.mp member with old | new
        · exact old
        · exact absurd (List.mem_singleton.mp new) same
    · rcases connections other member with ⟨thread, busy, here⟩ | ⟨waiting, spawning⟩
      · have different : thread ≠ serial := by
          rintro rfl
          exact unborn busy
        refine .inl ⟨thread, ?_, (others different).2.trans here⟩
        unfold Busy
        rw [(others different).1]
        exact busy
      · obtain ⟨rfl, rfl⟩ := AcceptStage.spawning.inj (Option.some.inj (loops.symm.trans spawning))
        exact .inl ⟨serial, placed⟩
  | close serves => constructor <;> simp only [closeConnection, Busy] at * <;> grind [Function.update]
  | erase erases => constructor <;> simp only [eraseConnection, Busy] at * <;> grind [Function.update]

theorem sound_initial (fresh : server.Initial) : server.Sound := by
  obtain ⟨holder, others, rfl⟩ := fresh
  have mine : ∀ fd owner, holder fd = some owner → owner = .other := by
    intro fd owner held
    rcases others fd with none | other
    · cases none.symm.trans held
    · exact Option.some.inj (held.symm.trans other)
  refine ⟨⟨nofun, nofun, nofun, fun _ _ => ⟨rfl, rfl⟩, fun fd held => ?_, nofun, nofun, nofun⟩,
    ⟨fun fd serial held => ?_, nofun, nofun, fun _ _ => rfl⟩, ⟨nofun, fun serial listed => ?_, nofun⟩⟩
  · cases mine fd _ held
  · cases mine fd _ held
  · rcases listed with impossible | ⟨threads, stops, -⟩
    · cases impossible
    · cases stops

variable {past : List RpcServer}

theorem Sound.turn (known : server.Sound) (turn : Turn server step later) : later.Sound :=
  ⟨controlled_step known turn, owned_step known turn, booked_step known turn⟩

theorem sound (run : Reaches past server) : server.Sound := by
  apply run.invariant (fun _ fresh => sound_initial fresh)
  intro past server step later before known moved
  exact known.turn (act_turn moved)

end RpcServer

end QuorumDB.Rpc
