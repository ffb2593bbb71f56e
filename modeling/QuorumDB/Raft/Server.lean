import QuorumDB.Query.QueryEngine
import QuorumDB.Raft.MalformedCommand
import QuorumDB.Raft.Replication

/-!
Servers (`raft/raft_server.cpp`). Each has a node, whose callback runs Apply on the server's own
table, and answers reads from that table without asking the other servers.
-/

namespace QuorumDB.Raft
open Execution Storage Query Program

namespace RaftStateMachine

variable {Engine Failure : Type}

def runCalls (calls : EngineCalls Engine Failure) :
    RaftStateMachine Engine → List (Bytes × Int) → Option (RaftStateMachine Engine)
  | machine, [] => some machine
  | machine, call :: rest =>
      match machine.apply calls call.1 call.2 with
      | (.error _, _) => none
      | (.ok _, later) => runCalls calls later rest

end RaftStateMachine

/-- The nodes of all servers are those of the cluster. SubmitWrite looks at the state and proposes
under two locks, so that a write it lets pass stands in `writes` in between. -/
structure Servers where
  cluster : Cluster
  stateMachine : Int → RaftStateMachine TableStore
  writes : List (Int × RaftCommand)

inductive ServerAction where
  | raft (action : Action)
  | submitWrite (server : Int) (command : RaftCommand)
  | propose (position : Nat)
  | selectById (server : Int) (id : Int64)
  | selectWhere (server : Int) (predicate : Record → Bool)

inductive ServerAnswer where
  | none
  | submitted (accepted : Bool)
  | read (answer : EngineAnswer)
  | threw (error : StorageError)

def ServerAction.query : ServerAction → Option (Int × EngineOp)
  | .selectById server id => some (server, .selectById id)
  | .selectWhere server predicate => some (server, .selectWhere predicate)
  | _ => none

theorem ServerAction.query_reads {action : ServerAction} {server : Int} {query : EngineOp}
    (asks : action.query = some (server, query)) : query.Reads := by
  cases action with
  | selectById => exact (Prod.mk.inj (Option.some.inj asks)).2 ▸ trivial
  | selectWhere => exact (Prod.mk.inj (Option.some.inj asks)).2 ▸ trivial
  | _ => cases asks

namespace Servers

def setMachine (servers : Servers) (id : Int) (machine : RaftStateMachine TableStore) : Servers :=
  { servers with stateMachine := Function.update servers.stateMachine id machine }

def raft (rounds : Nat) (logged : Bool) (servers : Servers) (action : Action) : Option Servers := do
  let later ← servers.cluster.act action
  match servers.cluster.actor action with
  | none => some { servers with cluster := later }
  | some id =>
      let machine ← (servers.stateMachine id).runCalls (engineCalls rounds logged)
        ((later.node id).commits.drop (servers.cluster.node id).commits.length)
      some ({ servers with cluster := later }.setMachine id machine)

/-- The second half of SubmitWrite. -/
def propose (servers : Servers) (position : Nat) : Option (ServerAnswer × Servers) := do
  let write ← servers.writes[position]?
  let later ← servers.cluster.act (.propose write.1 write.2.serialize)
  some (.submitted ((servers.cluster.node write.1).propose write.2.serialize).2,
    { servers with cluster := later, writes := servers.writes.eraseIdx position })

/-- A read runs on the table of one server, as one step: no other call on that table comes between its
Search and its ReadRecord. Without a query engine it is undefined. -/
def read (rounds : Nat) (servers : Servers) (server : Int) (query : EngineOp) : Option (ServerAnswer × Servers) := do
  let store ← (servers.stateMachine server).engine
  let (result, later) ← run (TableStore.handler rounds) (query.program false) store
  let after := servers.setMachine server { servers.stateMachine server with engine := some later }
  match result with
  | .ok answer => some (.read answer, after)
  | .error error => some (.threw error, after)

/-- Nothing but SubmitWrite proposes. -/
def act (rounds : Nat) (logged : Bool) (servers : Servers) (action : ServerAction) : Option (ServerAnswer × Servers) :=
  match action with
  | .raft (.propose _ _) => none
  | .raft action => (servers.raft rounds logged action).map fun later => (.none, later)
  | .submitWrite server command =>
      if (servers.cluster.node server).state ≠ .leader then some (.submitted false, servers)
      else some (.none, { servers with writes := servers.writes ++ [(server, command)] })
  | .propose position => servers.propose position
  | .selectById server id =>
      if server ∈ servers.cluster.members then servers.read rounds server (.selectById id) else none
  | .selectWhere server predicate =>
      if server ∈ servers.cluster.members then servers.read rounds server (.selectWhere predicate) else none

def onCluster (servers : Servers) : ServerAction → Option Action
  | .raft action => some action
  | .propose position => servers.writes[position]?.map fun write => .propose write.1 write.2.serialize
  | _ => none

inductive Effect (rounds : Nat) (logged : Bool) (servers : Servers) : ServerAction → ServerAnswer → Servers → Prop where
  | network {action : Action} {cluster : Cluster} (step : servers.cluster.Step action cluster)
      (nobody : servers.cluster.actor action = none) :
      Effect rounds logged servers (.raft action) .none { servers with cluster := cluster }
  | handler {action : Action} {cluster : Cluster} {id : Int} {machine : RaftStateMachine TableStore}
      (step : servers.cluster.Step action cluster) (actor : servers.cluster.actor action = some id)
      (ran : (servers.stateMachine id).runCalls (engineCalls rounds logged)
        ((cluster.node id).commits.drop (servers.cluster.node id).commits.length) = some machine) :
      Effect rounds logged servers (.raft action) .none ({ servers with cluster := cluster }.setMachine id machine)
  | refuse {server : Int} {command : RaftCommand} (follows : (servers.cluster.node server).state ≠ .leader) :
      Effect rounds logged servers (.submitWrite server command) (.submitted false) servers
  | wait {server : Int} {command : RaftCommand} :
      Effect rounds logged servers (.submitWrite server command) .none
        { servers with writes := servers.writes ++ [(server, command)] }
  | propose {position : Nat} {write : Int × RaftCommand} {cluster : Cluster}
      (waits : servers.writes[position]? = some write)
      (step : servers.cluster.Step (.propose write.1 write.2.serialize) cluster) :
      Effect rounds logged servers (.propose position)
        (.submitted ((servers.cluster.node write.1).propose write.2.serialize).2)
        { servers with cluster := cluster, writes := servers.writes.eraseIdx position }
  | read {action : ServerAction} {server : Int} {query : EngineOp} {store later : TableStore} {answer : EngineAnswer}
      (asks : action.query = some (server, query)) (member : server ∈ servers.cluster.members)
      (engine : (servers.stateMachine server).engine = some store)
      (ran : run (TableStore.handler rounds) (query.program false) store = some (.ok answer, later)) :
      Effect rounds logged servers action (.read answer)
        (servers.setMachine server { servers.stateMachine server with engine := some later })
  | threw {action : ServerAction} {server : Int} {query : EngineOp} {store later : TableStore} {error : StorageError}
      (asks : action.query = some (server, query)) (member : server ∈ servers.cluster.members)
      (engine : (servers.stateMachine server).engine = some store)
      (ran : run (TableStore.handler rounds) (query.program false) store = some (.error error, later)) :
      Effect rounds logged servers action (.threw error)
        (servers.setMachine server { servers.stateMachine server with engine := some later })

variable {rounds : Nat} {logged : Bool} {servers later : Servers} {action : ServerAction} {answer : ServerAnswer}

theorem raft_effect {action : Action} (ran : servers.raft rounds logged action = some later) :
    Effect rounds logged servers (.raft action) .none later := by
  obtain ⟨cluster, step, rest⟩ := Option.bind_eq_some_iff.mp ran
  cases actor : servers.cluster.actor action with
  | none =>
    simp only [actor] at rest
    obtain rfl := Option.some.inj rest
    exact .network step actor
  | some id =>
    simp only [actor] at rest
    obtain ⟨machine, applied, same⟩ := Option.bind_eq_some_iff.mp rest
    obtain rfl := Option.some.inj same
    exact .handler step actor applied

theorem read_effect {server : Int} {query : EngineOp} (asks : action.query = some (server, query))
    (ran : (if server ∈ servers.cluster.members then servers.read rounds server query else none) = some (answer, later)) :
    Effect rounds logged servers action answer later := by
  obtain ⟨member, ran⟩ := Cluster.guarded ran
  obtain ⟨store, engine, rest⟩ := Option.bind_eq_some_iff.mp ran
  obtain ⟨⟨result, after⟩, done, same⟩ := Option.bind_eq_some_iff.mp rest
  cases result with
  | ok value =>
    obtain ⟨rfl, rfl⟩ := Prod.mk.inj (Option.some.inj same)
    exact .read asks member engine done
  | error error =>
    obtain ⟨rfl, rfl⟩ := Prod.mk.inj (Option.some.inj same)
    exact .threw asks member engine done

theorem act_effect (moved : servers.act rounds logged action = some (answer, later)) :
    Effect rounds logged servers action answer later := by
  cases action with
  | raft action =>
    have ran : ∃ after, servers.raft rounds logged action = some after ∧ (.none, after) = (answer, later) := by
      cases action with
      | propose => cases moved
      | _ => exact Option.map_eq_some_iff.mp moved
    obtain ⟨after, ran, same⟩ := ran
    obtain ⟨rfl, rfl⟩ := Prod.mk.inj same
    exact raft_effect ran
  | submitWrite server command =>
    simp only [act] at moved
    split_ifs at moved with follows
    · obtain ⟨rfl, rfl⟩ := Prod.mk.inj (Option.some.inj moved)
      exact .refuse follows
    · obtain ⟨rfl, rfl⟩ := Prod.mk.inj (Option.some.inj moved)
      exact .wait
  | propose position =>
    obtain ⟨write, waits, rest⟩ := Option.bind_eq_some_iff.mp moved
    obtain ⟨cluster, step, same⟩ := Option.bind_eq_some_iff.mp rest
    obtain ⟨rfl, rfl⟩ := Prod.mk.inj (Option.some.inj same)
    exact .propose waits step
  | selectById server id => exact read_effect rfl moved
  | selectWhere server predicate => exact read_effect rfl moved

end Servers

end QuorumDB.Raft
