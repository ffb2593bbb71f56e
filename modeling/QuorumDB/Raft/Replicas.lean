import QuorumDB.Raft.Permanence
import QuorumDB.Raft.Server

/-!
The tables of the servers as copies of one map. Each holds what the commands its node has applied
make of the records it started with, and where votes and acknowledgements are taken with care the
commands of all servers come from one sequence.
-/

namespace QuorumDB.Raft
open Execution Storage Query Program TermLog

variable {rounds : Nat} {logged : Bool} {map : Key → Option Record}

/-- The operations on the table that calls of the callback come to. -/
def ordered (calls : List (Bytes × Int)) : List TableOp :=
  calls.filterMap fun call => (RaftCommand.deserialize call.1).op

def recordsAfter (map : Key → Option Record) (calls : List (Bytes × Int)) : Key → Option Record :=
  TableOp.onMaps map (ordered calls)

def RaftCommand.onRecords (command : RaftCommand) (map : Key → Option Record) : Key → Option Record :=
  match command.op with
  | none => map
  | some op => op.onMap map

theorem recordsAfter_append (map : Key → Option Record) (early late : List (Bytes × Int)) :
    recordsAfter map (early ++ late) = recordsAfter (recordsAfter map early) late := by
  rw [recordsAfter, ordered, List.filterMap_append, TableOp.onMaps, List.foldl_append]
  rfl

theorem recordsAfter_singleton (map : Key → Option Record) (call : Bytes × Int) :
    recordsAfter map [call] = (RaftCommand.deserialize call.1).onRecords map := by
  rw [recordsAfter, ordered, List.filterMap_cons, RaftCommand.onRecords]
  cases (RaftCommand.deserialize call.1).op with
  | none => rfl
  | some op => rfl

section Table

variable {store : TableStore} {base : Multiset (PageId × Cell)} {index : Int} {machine : RaftStateMachine TableStore}
variable {Good : (Key → Option Record) → TableStore → Prop}

theorem apply_does (tabled : Tabled base map store) (enough : maxPages + 1 < rounds) {command : Bytes} {logIndex : Int}
    (fresh : index < logIndex)
    (ran : RaftStateMachine.apply (engineCalls rounds logged) ⟨some store, index⟩ command logIndex = (.ok (), machine)) :
    ∃ later, machine = ⟨some later, logIndex⟩ ∧
      (recordsAfter map [(command, logIndex)] = map ∧ later = store ∨
        ∃ (op : TableOp) (answer : Bool), recordsAfter map [(command, logIndex)] = op.onMap map ∧
          op.Does base map logged store.wal answer later) := by
  have kept : ¬ (⟨some store, index⟩ : RaftStateMachine TableStore).Drops logIndex := Int.not_le.mpr fresh
  have executes := @execute_op rounds logged (RaftCommand.deserialize command) store
  rw [RaftStateMachine.apply, if_neg kept] at ran
  rw [recordsAfter, ordered, List.filterMap_cons]
  cases orders : (RaftCommand.deserialize command).op with
  | none =>
    simp only [orders] at executes
    simp only [executes] at ran
    obtain ⟨-, rfl⟩ := Prod.mk.inj ran
    exact ⟨store, rfl, .inl ⟨rfl, rfl⟩⟩
  | some op =>
    have does : Finishes rounds (op.program logged) (op.Does base map logged store.wal) store :=
      (op.program_spec tabled enough).finishes
    simp only [orders] at executes
    rcases answering_cases does with ⟨later, threw, -⟩ | ⟨answer, later, answered, done⟩
    · simp only [executes, threw] at ran
      cases (Prod.mk.inj ran).1
    · simp only [executes, answered] at ran
      obtain ⟨-, rfl⟩ := Prod.mk.inj ran
      exact ⟨later, rfl, .inr ⟨op, answer, rfl, done⟩⟩

theorem runCalls_keeps (known : ∀ map store, Good map store → Tabled base map store)
    (keeps : ∀ map store op answer later, Good map store → TableOp.Does base map logged store.wal op answer later →
      Good (op.onMap map) later) (good : Good map store) (enough : maxPages + 1 < rounds) {calls : List (Bytes × Int)}
    (numbered : ∀ (position : Nat) (call : Bytes × Int), calls[position]? = some call → call.2 = index + 1 + position)
    (ran : RaftStateMachine.runCalls (engineCalls rounds logged) ⟨some store, index⟩ calls = some machine) :
    ∃ later, machine = ⟨some later, index + calls.length⟩ ∧ Good (recordsAfter map calls) later := by
  induction calls generalizing map store index with
  | nil =>
    obtain rfl := Option.some.inj ran
    exact ⟨store, by rw [List.length_nil, Int.natCast_zero, Int.add_zero], good⟩
  | cons call rest ih =>
    have first : call.2 = index + 1 := (numbered 0 call rfl).trans (Int.add_zero _)
    rw [RaftStateMachine.runCalls] at ran
    split at ran
    · cases ran
    next middle applied =>
      obtain ⟨between, rfl, does⟩ := apply_does (known _ _ good) enough (by omega) applied
      have next : Good (recordsAfter map [call]) between := by
        rcases does with ⟨same, rfl⟩ | ⟨op, answer, changed, done⟩
        · exact same.symm ▸ good
        · exact changed.symm ▸ keeps map store op answer between good done
      have behind : ∀ (position : Nat) (other : Bytes × Int), rest[position]? = some other →
          other.2 = call.2 + 1 + position := fun position other found => by
        have later := numbered (position + 1) other found
        omega
      obtain ⟨after, rfl, done⟩ := ih next behind ran
      refine ⟨after, ?_, ?_⟩
      · rw [List.length_cons, first]
        congr 1
        omega
      · have split : recordsAfter map (call :: rest) = recordsAfter (recordsAfter map [call]) rest :=
          recordsAfter_append map [call] rest
        rw [split]
        exact done

theorem runCalls_tabled {calls : List (Bytes × Int)} (tabled : Tabled base map store) (enough : maxPages + 1 < rounds)
    (numbered : ∀ (position : Nat) (call : Bytes × Int), calls[position]? = some call → call.2 = index + 1 + position)
    (ran : RaftStateMachine.runCalls (engineCalls rounds logged) ⟨some store, index⟩ calls = some machine) :
    ∃ later, machine = ⟨some later, index + calls.length⟩ ∧ Tabled base (recordsAfter map calls) later :=
  runCalls_keeps (fun _ _ => id) (fun _ _ _ _ _ _ done => done.2.1) tabled enough numbered ran

end Table

section Node

variable {cluster later : Cluster} {id : Int}

theorem Cluster.Move.onCommit {packet : Option Packet} {node : RaftNode} (move : cluster.Move packet id node) :
    node.onCommit = (cluster.node id).onCommit := by
  cases move with
  | start =>
    rcases RaftNode.start_cases (cluster.node id) with same | same <;> rw [same]
  | propose leads => rw [RaftNode.propose_leader leads]
  | follow inFlight fresh => rw [RaftNode.seeLeader_eq _ fresh]
  | accept inFlight fresh matching ran =>
    obtain ⟨commitIndex, lastApplied, commits, rfl⟩ := RaftNode.acceptEntries_frame ran
    rw [RaftNode.seeLeader_eq _ fresh]
    rfl
  | acknowledge delivers inFlight leads runs current typed accepted ran =>
    obtain ⟨commitIndex, lastApplied, commits, rfl⟩ := RaftNode.commitScan_frame ran
    rfl
  | _ => rfl

theorem Cluster.step_calls {action : Action} (step : cluster.Step action later) (sound : (cluster.node id).Sound)
    (inOrder : (cluster.node id).InOrder) :
    (later.node id).InOrder ∧ ∃ calls, (later.node id).commits = (cluster.node id).commits ++ calls ∧
      (later.node id).lastApplied = (cluster.node id).lastApplied + calls.length ∧
      ∀ (position : Nat) (call : Bytes × Int), calls[position]? = some call →
        call.2 = (cluster.node id).lastApplied + 1 + position := by
  rcases Cluster.step_act step id with same | ⟨moved, acted⟩
  · rw [same]
    refine ⟨inOrder, [], (List.append_nil _).symm, (Int.add_zero _).symm, fun position call found => ?_⟩
    cases found
  · have applies := (RaftNode.act_sound sound acted).2
    have unchanged := ((Cluster.step_effect step).move id).onCommit
    have after := inOrder.step applies unchanged
    obtain ⟨-, calls, commits, calling, count⟩ := applies
    refine ⟨after, calls, commits, count inOrder.onCommit, fun position call found => ?_⟩
    exact (calling position call found).1

theorem Cluster.step_other {action : Action} (step : cluster.Step action later) (other : cluster.actor action ≠ some id) :
    later.node id = cluster.node id := by
  have apart : ∀ {target : Int} {node : RaftNode} {start : Cluster}, some target ≠ some id → start.node = cluster.node →
      (start.set target node).node id = cluster.node id := by
    intro target node start different same
    rw [Cluster.set_other _ _ _ fun here => different (congrArg some here.symm), same]
  cases action with
  | start target =>
    obtain ⟨-, shape⟩ := Cluster.guarded step
    obtain rfl := Option.some.inj shape
    exact apart other rfl
  | stop target =>
    obtain ⟨-, shape⟩ := Cluster.guarded step
    obtain rfl := Option.some.inj shape
    exact apart other rfl
  | startElection target =>
    obtain ⟨-, shape⟩ := Cluster.guarded step
    obtain ⟨⟨node, requests⟩, -, same⟩ := Option.bind_eq_some_iff.mp shape
    obtain rfl := Option.some.inj same
    exact apart other rfl
  | propose target command =>
    obtain ⟨-, shape⟩ := Cluster.guarded step
    obtain rfl := Option.some.inj shape
    exact apart other rfl
  | sendHeartbeats target =>
    obtain ⟨-, shape⟩ := Cluster.guarded step
    obtain ⟨requests, -, same⟩ := Option.bind_eq_some_iff.mp shape
    obtain rfl := Option.some.inj same
    rfl
  | drop position =>
    obtain rfl := Option.some.inj step
    rfl
  | duplicate position =>
    obtain ⟨packet, -, same⟩ := Option.bind_eq_some_iff.mp step
    obtain rfl := Option.some.inj same
    rfl
  | deliver position =>
    obtain ⟨packet, found, received⟩ := Option.bind_eq_some_iff.mp step
    have away : some packet.target ≠ some id := by
      rw [Cluster.actor, found] at other
      exact other
    cases packet with
    | voteRequest target request =>
      obtain ⟨-, shape⟩ := Cluster.guarded received
      obtain rfl := Option.some.inj shape
      exact apart away rfl
    | voteReply target electionTerm peer reply =>
      obtain ⟨-, shape⟩ := Cluster.guarded received
      obtain rfl := Option.some.inj shape
      exact apart away rfl
    | appendRequest target term leader args =>
      obtain ⟨-, shape⟩ := Cluster.guarded received
      obtain ⟨⟨node, reply⟩, -, same⟩ := Option.bind_eq_some_iff.mp shape
      obtain rfl := Option.some.inj same
      exact apart away rfl
    | appendReply target peer sent reply =>
      obtain ⟨-, shape⟩ := Cluster.guarded received
      obtain ⟨node, -, same⟩ := Option.bind_eq_some_iff.mp shape
      obtain rfl := Option.some.inj same
      exact apart away rfl

end Node

namespace Servers

/-- Fresh nodes with their callbacks set. The table of each server may hold records already. -/
structure Initial (base : Int → Multiset (PageId × Cell)) (held : Int → Key → Option Record) (servers : Servers) : Prop where
  cluster : servers.cluster.Initial
  onCommit : ∀ id ∈ servers.cluster.members, (servers.cluster.node id).onCommit = true
  tables : ∀ id ∈ servers.cluster.members, ∃ store, servers.stateMachine id = .new (some store) ∧
    Tabled (base id) (held id) store
  tidy : ∀ id ∈ servers.cluster.members, Tidy (held id)
  writes : servers.writes = []

def StepWhen (allowed : Cluster → Action → Prop) (rounds : Nat) (logged : Bool) (servers : Servers)
    (label : ServerAction × ServerAnswer) (later : Servers) : Prop :=
  servers.act rounds logged label.1 = some (label.2, later) ∧
    ∀ action ∈ servers.onCluster label.1, allowed servers.cluster action

abbrev ReachesWhen (allowed : Cluster → Action → Prop) (rounds : Nat) (logged : Bool)
    (base : Int → Multiset (PageId × Cell)) (held : Int → Key → Option Record) : List Servers → Servers → Prop :=
  Run (Initial base held) (StepWhen allowed rounds logged)

section Runs

variable {allowed : Cluster → Action → Prop} {base : Int → Multiset (PageId × Cell)} {held : Int → Key → Option Record}
variable {past : List Servers} {servers later : Servers} {label : ServerAction × ServerAnswer}

theorem StepWhen.cluster (step : StepWhen allowed rounds logged servers label later) :
    later.cluster = servers.cluster ∨
      ∃ action, servers.onCluster label.1 = some action ∧ Cluster.StepWhen allowed servers.cluster action later.cluster := by
  obtain ⟨action, answer⟩ := label
  obtain ⟨moved, permitted⟩ := step
  cases act_effect moved with
  | network acted nobody => exact .inr ⟨_, rfl, acted, permitted _ rfl⟩
  | handler acted actor ran => exact .inr ⟨_, rfl, acted, permitted _ rfl⟩
  | @propose position write cluster waits acted =>
    have comes : servers.onCluster (.propose position) = some (.propose write.1 write.2.serialize) :=
      Option.map_eq_some_iff.mpr ⟨write, waits, rfl⟩
    exact .inr ⟨_, comes, acted, permitted _ comes⟩
  | refuse follows => exact .inl rfl
  | wait => exact .inl rfl
  | read asks member engine ran => exact .inl rfl
  | threw asks member engine ran => exact .inl rfl

theorem ReachesWhen.cluster (run : ReachesWhen allowed rounds logged base held past servers) :
    ∃ older, Cluster.ReachesWhen allowed older servers.cluster ∧
      ∀ earlier ∈ past, earlier.cluster ∈ servers.cluster :: older := by
  induction run with
  | start fresh => exact ⟨[], .start fresh.cluster, fun earlier impossible => absurd impossible List.not_mem_nil⟩
  | @next past servers later label before step ih =>
    obtain ⟨older, reached, seen⟩ := ih
    rcases step.cluster with same | ⟨action, -, moved⟩
    · refine ⟨older, same.symm ▸ reached, fun earlier member => ?_⟩
      rw [same]
      rcases List.mem_cons.mp member with rfl | inPast
      · exact List.mem_cons_self
      · exact seen earlier inPast
    · refine ⟨servers.cluster :: older, reached.next moved, fun earlier member => ?_⟩
      rcases List.mem_cons.mp member with rfl | inPast
      · exact List.mem_cons_of_mem _ List.mem_cons_self
      · exact List.mem_cons_of_mem _ (seen earlier inPast)

/-- Every table holds what the commands applied so far make of what it held at the start. -/
structure Serving (base : Int → Multiset (PageId × Cell)) (held : Int → Key → Option Record) (servers : Servers) : Prop where
  inOrder : ∀ id ∈ servers.cluster.members, (servers.cluster.node id).InOrder
  tables : ∀ id ∈ servers.cluster.members, ∃ store,
    servers.stateMachine id = ⟨some store, (servers.cluster.node id).lastApplied⟩ ∧
      Tabled (base id) (recordsAfter (held id) (servers.cluster.node id).commits) store
  tidy : ∀ id ∈ servers.cluster.members, Tidy (held id)

theorem setMachine_same (servers : Servers) (id : Int) (machine : RaftStateMachine TableStore) :
    (servers.setMachine id machine).stateMachine id = machine := Function.update_self ..

theorem setMachine_other (servers : Servers) {id other : Int} (machine : RaftStateMachine TableStore)
    (different : other ≠ id) : (servers.setMachine id machine).stateMachine other = servers.stateMachine other :=
  Function.update_of_ne different _ _

theorem Serving.read (known : Serving base held servers) {server : Int} (member : server ∈ servers.cluster.members)
    {store after : TableStore} (engine : (servers.stateMachine server).engine = some store)
    (still : Tabled (base server) (recordsAfter (held server) (servers.cluster.node server).commits) after) :
    Serving base held (servers.setMachine server { servers.stateMachine server with engine := some after }) := by
  refine ⟨known.inOrder, fun id inside => ?_, known.tidy⟩
  by_cases here : id = server
  · subst here
    obtain ⟨before, shape, -⟩ := known.tables id member
    rw [setMachine_same, shape]
    exact ⟨after, rfl, still⟩
  · rw [setMachine_other _ _ here]
    exact known.tables id inside

theorem Serving.handled (known : Serving base held servers) (logged : Bool) (enough : maxPages + 1 < rounds) {action : Action}
    {cluster : Cluster} (step : servers.cluster.Step action cluster)
    (sound : ∀ id ∈ servers.cluster.members, (servers.cluster.node id).Sound)
    {machines : Int → RaftStateMachine TableStore} {writes : List (Int × RaftCommand)}
    (idle : ∀ id, servers.cluster.actor action ≠ some id → machines id = servers.stateMachine id)
    (busy : ∀ id, servers.cluster.actor action = some id →
      (servers.stateMachine id).runCalls (engineCalls rounds logged)
        ((cluster.node id).commits.drop (servers.cluster.node id).commits.length) = some (machines id)) :
    Serving base held ⟨cluster, machines, writes⟩ := by
  have members := (Cluster.step_effect step).members
  refine ⟨fun id inLater => ?_, fun id inLater => ?_, fun id inLater => known.tidy id (members ▸ inLater)⟩
  · have member : id ∈ servers.cluster.members := members ▸ inLater
    exact (Cluster.step_calls step (sound id member) (known.inOrder id member)).1
  · have member : id ∈ servers.cluster.members := members ▸ inLater
    obtain ⟨store, shape, tabled⟩ := known.tables id member
    obtain ⟨-, calls, commits, applied, numbered⟩ := Cluster.step_calls step (sound id member) (known.inOrder id member)
    by_cases acts : servers.cluster.actor action = some id
    · have ran := busy id acts
      rw [commits, List.drop_left, shape] at ran
      obtain ⟨after, same, done⟩ := runCalls_tabled tabled enough numbered ran
      refine ⟨after, ?_, ?_⟩
      · exact same.trans (congrArg (RaftStateMachine.mk (some after)) applied.symm)
      · change Tabled (base id) (recordsAfter (held id) (cluster.node id).commits) after
        rw [commits, recordsAfter_append]
        exact done
    · have same := Cluster.step_other step acts
      refine ⟨store, ?_, ?_⟩
      · change machines id = ⟨some store, (cluster.node id).lastApplied⟩
        rw [idle id acts, same]
        exact shape
      · change Tabled (base id) (recordsAfter (held id) (cluster.node id).commits) store
        rw [same]
        exact tabled

theorem Serving.answers (known : Serving base held servers) (enough : maxPages + 1 < rounds) {server : Int}
    (member : server ∈ servers.cluster.members) {query : EngineOp} (reads : query.Reads) {store : TableStore}
    (engine : (servers.stateMachine server).engine = some store) :
    ∃ answer later, run (TableStore.handler rounds) (query.program false) store = some (.ok answer, later) ∧
      query.Answers (recordsAfter (held server) (servers.cluster.node server).commits) answer
        (recordsAfter (held server) (servers.cluster.node server).commits) ∧
      Tabled (base server) (recordsAfter (held server) (servers.cluster.node server).commits) later := by
  obtain ⟨before, shape, tabled⟩ := known.tables server member
  rw [shape] at engine
  obtain rfl := Option.some.inj engine
  have named : Named (recordsAfter (held server) (servers.cluster.node server).commits) :=
    ((known.tidy server member).onMaps _).named
  exact (EngineOp.read_returns tabled named reads false enough).runs

theorem propose_commits {cluster after : Cluster} {id : Int} {command : Bytes} (step : cluster.Step (.propose id command) after) :
    (after.node id).commits = (cluster.node id).commits := by
  obtain ⟨-, shape⟩ := Cluster.guarded step
  obtain rfl := Option.some.inj shape
  rw [Cluster.set_same, RaftNode.propose]
  split_ifs
  · rfl
  · rfl

theorem serving_step (known : Serving base held servers) (enough : maxPages + 1 < rounds)
    (sound : ∀ id ∈ servers.cluster.members, (servers.cluster.node id).Sound)
    (step : StepWhen allowed rounds logged servers label later) : Serving base held later := by
  obtain ⟨action, answer⟩ := label
  cases act_effect step.1 with
  | network acted nobody =>
    refine known.handled logged enough acted sound (fun id other => rfl) fun id acts => ?_
    cases nobody.symm.trans acts
  | @handler action cluster id machine acted actor ran =>
    refine known.handled logged enough acted sound (fun other different => ?_) fun other acts => ?_
    · refine Function.update_of_ne ?_ _ _
      rintro rfl
      exact different actor
    · obtain rfl := Option.some.inj (actor.symm.trans acts)
      rw [ran, Function.update_self]
  | refuse follows => exact known
  | wait => exact ⟨known.inOrder, known.tables, known.tidy⟩
  | @propose position write cluster waits acted =>
    refine known.handled logged enough acted sound (fun id other => rfl) fun id acts => ?_
    obtain rfl := Option.some.inj acts
    rw [propose_commits acted, List.drop_length]
    rfl
  | read asks member engine ran =>
    obtain ⟨answer, later, answered, -, still⟩ := known.answers enough member (ServerAction.query_reads asks) engine
    obtain ⟨-, rfl⟩ := Prod.mk.inj (Option.some.inj (ran.symm.trans answered))
    exact known.read member engine still
  | threw asks member engine ran =>
    obtain ⟨answer, later, answered, -, -⟩ := known.answers enough member (ServerAction.query_reads asks) engine
    cases ran.symm.trans answered

theorem serving (run : ReachesWhen allowed rounds logged base held past servers) (enough : maxPages + 1 < rounds) :
    Serving base held servers := by
  induction run with
  | start fresh =>
    refine ⟨fun id member => ?_, fun id member => ?_, fresh.tidy⟩
    · have on := fresh.onCommit id member
      obtain ⟨peers, onCommit, shape, -⟩ := fresh.cluster.2.2.2 id member
      rw [shape] at on ⊢
      exact ⟨on, (fun position call found => by cases found), rfl⟩
    · obtain ⟨store, machine, tabled⟩ := fresh.tables id member
      obtain ⟨peers, onCommit, shape, -⟩ := fresh.cluster.2.2.2 id member
      rw [machine, shape]
      exact ⟨store, rfl, tabled⟩
  | @next past servers later label before step ih =>
    obtain ⟨older, reached, -⟩ := ReachesWhen.cluster before
    exact serving_step ih enough (fun id member => node_sound (Cluster.ReachesWhen.reaches reached) member) step

/-- Every read returns what the commands applied on its server so far make of the records at the
start. They are the commands 1, 2, 3, and so on up to the last index applied, each called once. -/
theorem reads_show_applied (run : ReachesWhen allowed rounds logged base held past servers) (enough : maxPages + 1 < rounds) :
    (∀ id ∈ servers.cluster.members, (servers.cluster.node id).lastApplied = (servers.cluster.node id).commits.length ∧
      (servers.stateMachine id).lastAppliedIndex = (servers.cluster.node id).lastApplied ∧
      ∀ (position : Nat) (call : Bytes × Int), (servers.cluster.node id).commits[position]? = some call →
        call.2 = position + 1) ∧
    ∀ action server query, action.query = some (server, query) → server ∈ servers.cluster.members →
      ∃ found after, servers.act rounds logged action = some (.read found, after) ∧
        query.Answers (recordsAfter (held server) (servers.cluster.node server).commits) found
          (recordsAfter (held server) (servers.cluster.node server).commits) := by
  have known := serving run enough
  refine ⟨fun id member => ⟨(known.inOrder id member).count, ?_, (known.inOrder id member).numbered⟩,
    fun action server query asks member => ?_⟩
  · obtain ⟨store, shape, -⟩ := known.tables id member
    rw [shape]
  · obtain ⟨store, shape, -⟩ := known.tables server member
    have engine : (servers.stateMachine server).engine = some store := by rw [shape]
    obtain ⟨found, later, ran, answers, -⟩ := known.answers enough member (ServerAction.query_reads asks) engine
    obtain ⟨after, read⟩ : ∃ after, servers.read rounds server query = some (.read found, after) := by
      refine ⟨servers.setMachine server { servers.stateMachine server with engine := some later }, ?_⟩
      simp only [Servers.read, engine, ran, Option.bind_eq_bind, Option.bind_some]
    refine ⟨found, after, ?_, answers⟩
    cases action with
    | selectById target id =>
      obtain ⟨rfl, rfl⟩ := Prod.mk.inj (Option.some.inj asks)
      exact (if_pos member).trans read
    | selectWhere target predicate =>
      obtain ⟨rfl, rfl⟩ := Prod.mk.inj (Option.some.inj asks)
      exact (if_pos member).trans read
    | _ => cases asks

def actWhen (allowed : Cluster → Action → Prop) [∀ cluster action, Decidable (allowed cluster action)] (rounds : Nat)
    (logged : Bool) (servers : Servers) (action : ServerAction) : Option Servers :=
  if ∀ onCluster ∈ servers.onCluster action, allowed servers.cluster onCluster then
    (servers.act rounds logged action).map Prod.snd
  else none

theorem replay_onward [∀ cluster action, Decidable (allowed cluster action)]
    (run : ReachesWhen allowed rounds logged base held past servers) {actions : List ServerAction}
    {visited : List Servers × Servers} (played : replay (actWhen allowed rounds logged) servers actions = some visited) :
    ReachesWhen allowed rounds logged base held (visited.1 ++ past) visited.2 := by
  have functional : Run (Initial base held) (fun state action later => actWhen allowed rounds logged state action = some later)
      past servers := by
    refine run.mono fun state label later step => ⟨label.1, ?_⟩
    rw [actWhen, if_pos step.2, step.1]
    rfl
  refine (functional.append_replay played).mono fun state action later step => ?_
  obtain ⟨permitted, moved⟩ := Cluster.guarded step
  obtain ⟨⟨answer, after⟩, acted, rfl⟩ := Option.map_eq_some_iff.mp moved
  exact ⟨(action, answer), acted, permitted⟩

theorem initial_replay [∀ cluster action, Decidable (allowed cluster action)] {fresh : Servers}
    (initial : Initial base held fresh) {actions : List ServerAction} {visited : List Servers × Servers}
    (played : replay (actWhen allowed rounds logged) fresh actions = some visited) :
    ReachesWhen allowed rounds logged base held visited.1 visited.2 := by
  have run := replay_onward (Run.start initial) played
  rw [List.append_nil] at run
  exact run

end Runs

/-- Servers of three fresh nodes, with empty tables over pools of one frame. -/
def trio : Servers where
  cluster := Cluster.trio
  stateMachine := fun _ => .new (some ⟨TreeStore.open 1 [], WALManager.openFile []⟩)
  writes := []

theorem trio_initial : Initial (fun _ => strays []) (fun _ _ => none) trio := by
  refine ⟨Cluster.trio_initial, fun id member => ?_, fun id member => ⟨_, rfl, tabled_opened (by decide) (by decide)⟩,
    fun id member => tidy_empty, rfl⟩
  rfl

def written : List ServerAction :=
  [.raft (.start 1), .raft (.start 2), .raft (.start 3), .raft (.startElection 1), .raft (.deliver 0), .raft (.deliver 1),
    .submitWrite 1 ⟨RaftCommand.insert, 5, [65], 7⟩, .propose 0, .raft (.sendHeartbeats 1), .raft (.deliver 1),
    .raft (.deliver 2), .raft (.sendHeartbeats 1), .raft (.deliver 2)]

theorem reads_show_applied_trio : ∃ past servers found after,
    ReachesWhen (fun _ _ => True) (maxPages + 2) true (fun _ => strays []) (fun _ _ => none) past servers ∧
    (servers.cluster.node 2).commits = [(RaftCommand.serialize ⟨RaftCommand.insert, 5, [65], 7⟩, 1)] ∧
    servers.act (maxPages + 2) true (.selectById 2 5) = some (.read found, after) ∧
    (EngineOp.selectById 5).Answers (recordsAfter (fun _ => none) (servers.cluster.node 2).commits) found
      (recordsAfter (fun _ => none) (servers.cluster.node 2).commits) := by
  have applied : ∃ visited ∈ replay (actWhen (fun _ _ => True) (maxPages + 2) true) trio written,
      2 ∈ visited.2.cluster.members ∧
        (visited.2.cluster.node 2).commits = [(RaftCommand.serialize ⟨RaftCommand.insert, 5, [65], 7⟩, 1)] := by
    decide +kernel
  obtain ⟨visited, played, member, commits⟩ := applied
  have run := initial_replay trio_initial played
  obtain ⟨found, after, read, answers⟩ :=
    (reads_show_applied run (Nat.lt_succ_self _)).2 (.selectById 2 5) 2 (.selectById 5) rfl member
  exact ⟨_, _, found, after, run, commits, read, answers⟩

end Servers

end QuorumDB.Raft
