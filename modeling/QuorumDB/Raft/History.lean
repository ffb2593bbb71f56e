import QuorumDB.Raft.CommandCodec
import QuorumDB.Raft.Replicas
import Mathlib.Data.Finset.Max

/-!
One history for all servers, in the executions whose votes and acknowledgements are taken with
care: each table shows a part of it from its start, and a write that SubmitWrite accepted has its
place in it once an entry of its term is committed there.
-/

namespace QuorumDB.Raft
open Execution Storage Query Program TermLog

theorem prefix_of_alike {one two : List (Bytes × Int)}
    (first : ∀ (position : Nat) (call : Bytes × Int), one[position]? = some call → call.2 = position + 1)
    (second : ∀ (position : Nat) (call : Bytes × Int), two[position]? = some call → call.2 = position + 1)
    (alike : ∀ index mine yours, (mine, index) ∈ one → (yours, index) ∈ two → mine = yours)
    (shorter : one.length ≤ two.length) : one <+: two := by
  rw [List.prefix_iff_eq_take]
  refine List.ext_getElem? fun position => ?_
  by_cases inside : position < one.length
  · have here : one[position]? = some one[position] := List.getElem?_eq_getElem inside
    have there : two[position]? = some two[position] := List.getElem?_eq_getElem (inside.trans_le shorter)
    have mine := first position _ here
    have yours := second position _ there
    have command := alike one[position].2 one[position].1 two[position].1 (List.getElem_mem _) (by
      rw [mine, ← yours]
      exact List.getElem_mem _)
    rw [List.getElem?_take_of_lt inside, here, there]
    exact congrArg some (Prod.ext command (mine.trans yours.symm))
  · rw [List.getElem?_eq_none (Nat.le_of_not_lt inside), List.getElem?_eq_none]
    rw [List.length_take]
    omega

theorem placed_call {calls : List (Bytes × Int)}
    (numbered : ∀ (position : Nat) (call : Bytes × Int), calls[position]? = some call → call.2 = position + 1)
    {index : Nat} (positive : 0 < index) (below : index ≤ calls.length) {command : Bytes}
    (known : ∀ call ∈ calls, call.2 = index → call.1 = command) : ∃ early late, calls = early ++ (command, (index : Int)) :: late := by
  have inside : index - 1 < calls.length := by omega
  have number : calls[index - 1].2 = index := by
    rw [numbered _ _ (List.getElem?_eq_getElem inside)]
    omega
  have call : calls[index - 1] = (command, (index : Int)) :=
    Prod.ext (known _ (List.getElem_mem inside) number) number
  refine ⟨calls.take (index - 1), calls.drop (index - 1 + 1), ?_⟩
  rw [← call, ← List.drop_eq_getElem_cons inside, List.take_append_drop]

section Entries

variable {past : List Cluster} {cluster : Cluster}

theorem leader_listed (run : Cluster.Reaches past cluster) {state : Cluster} (seen : state ∈ cluster :: past) {id : Int}
    (member : id ∈ state.members) (leads : (state.node id).state = .leader) :
    (state.node id).log <+: termLog (cluster :: past) (state.node id).currentTerm := by
  obtain ⟨older, reached, within⟩ := run.visited seen
  rw [← termLog_leader reached member leads]
  exact termLog_earlier run within _

theorem entry_of_leader (run : Cluster.Reaches past cluster) {state : Cluster} (seen : state ∈ cluster :: past) {leader id : Int}
    (leaderMember : leader ∈ state.members) (leads : (state.node leader).state = .leader) (member : id ∈ cluster.members)
    {index : Nat} {mine yours : LogEntry} (here : (state.node leader).log[index]? = some mine)
    (there : (cluster.node id).log[index]? = some yours) (same : yours.term = (state.node leader).currentTerm) : yours = mine := by
  have listed := getElem?_mono (leader_listed run seen leaderMember leads) here
  have coherent := ((logInv run).logs id member).coherent index yours there
  rw [same] at coherent
  have copied := getElem?_mono coherent (getElem?_take_succ.trans there)
  exact Option.some.inj (copied.symm.trans listed)

end Entries

theorem recordsAfter_serialize {command : RaftCommand} (short : command.name.length < 2 ^ 32) (map : Key → Option Record)
    (index : Int) : recordsAfter map [(command.serialize, index)] = command.onRecords map := by
  rw [recordsAfter_singleton, RaftCommand.deserialize_serialize short]

namespace Servers

variable {rounds : Nat} {logged : Bool} {allowed : Cluster → Action → Prop} {base : Int → Multiset (PageId × Cell)}
variable {held : Int → Key → Option Record} {past : List Servers} {servers earlier : Servers}

theorem applied_grows (run : ReachesWhen allowed rounds logged base held past servers) (enough : maxPages + 1 < rounds)
    (seen : earlier ∈ servers :: past) : earlier.cluster.members = servers.cluster.members ∧
      ∀ id ∈ servers.cluster.members, (earlier.cluster.node id).commits <+: (servers.cluster.node id).commits := by
  induction run with
  | start fresh =>
    obtain rfl := List.mem_singleton.mp seen
    exact ⟨rfl, fun id member => List.prefix_refl _⟩
  | @next past servers later label before step ih =>
    rcases List.mem_cons.mp seen with rfl | inPast
    · exact ⟨rfl, fun id member => List.prefix_refl _⟩
    · obtain ⟨members, grows⟩ := ih inPast
      rcases step.cluster with same | ⟨action, -, moved⟩
      · rw [same]
        exact ⟨members, grows⟩
      · have kept := (Cluster.step_effect moved.1).members
        refine ⟨members.trans kept.symm, fun id inLater => ?_⟩
        have member : id ∈ servers.cluster.members := kept ▸ inLater
        obtain ⟨older, reached, -⟩ := ReachesWhen.cluster before
        have sound := node_sound (Cluster.ReachesWhen.reaches reached) member
        obtain ⟨-, calls, commits, -⟩ := Cluster.step_calls moved.1 sound ((serving before enough).inOrder id member)
        exact (grows id member).trans (commits ▸ List.prefix_append _ _)

/-- The commands that all servers have applied so far come from one of them. -/
theorem one_history (run : ReachesWhen Careful rounds logged base held past servers) (enough : maxPages + 1 < rounds) :
    ∃ history : List (Bytes × Int),
      (servers.cluster.members ≠ [] → ∃ id ∈ servers.cluster.members, (servers.cluster.node id).commits = history) ∧
      ∀ id ∈ servers.cluster.members, (servers.cluster.node id).commits <+: history := by
  by_cases none : servers.cluster.members = []
  · refine ⟨[], fun some => absurd none some, fun id member => ?_⟩
    rw [none] at member
    cases member
  · obtain ⟨top, inside, most⟩ := Finset.exists_max_image servers.cluster.members.toFinset
      (fun id => (servers.cluster.node id).commits.length) (List.toFinset_nonempty_iff _ |>.mpr none)
    have topMember := List.mem_toFinset.mp inside
    have known := serving run enough
    obtain ⟨older, reached, -⟩ := ReachesWhen.cluster run
    have decided := (commitInv reached).calls
    refine ⟨(servers.cluster.node top).commits, fun _ => ⟨top, topMember, rfl⟩, fun id member => ?_⟩
    refine prefix_of_alike (known.inOrder id member).numbered (known.inOrder top topMember).numbered ?_
      (most id (List.mem_toFinset.mpr member))
    intro index mine yours here there
    exact Decided.unique reached (decided id member _ here) (decided top topMember _ there)

/-- All tables, at all times, are versions of one map: there is one history of commands, and what
any server shows in any state passed through is what the first `lastApplied` commands of it make of
the records that server started with. On one server that number never goes down. -/
theorem replicas_follow_history (run : ReachesWhen Careful rounds logged base held past servers) (enough : maxPages + 1 < rounds) :
    ∃ history : List (Bytes × Int), ∀ earlier older, earlier :: older <:+ servers :: past →
      ∀ id ∈ servers.cluster.members,
        (earlier.cluster.node id).lastApplied.toNat ≤ history.length ∧
        (∃ store, (earlier.stateMachine id).engine = some store ∧
          Shows rounds store (recordsAfter (held id) (history.take (earlier.cluster.node id).lastApplied.toNat))) ∧
        ∀ before ∈ older, (before.cluster.node id).lastApplied ≤ (earlier.cluster.node id).lastApplied := by
  obtain ⟨history, -, parts⟩ := one_history run enough
  refine ⟨history, fun earlier older within id member => ?_⟩
  have shorter := run.earlier within
  obtain ⟨members, grows⟩ := applied_grows run enough (within.subset List.mem_cons_self)
  have inEarlier : id ∈ earlier.cluster.members := members ▸ member
  have known := serving shorter enough
  have count : (earlier.cluster.node id).lastApplied.toNat = (earlier.cluster.node id).commits.length := by
    rw [(known.inOrder id inEarlier).count, Int.toNat_natCast]
  have part := (grows id member).trans (parts id member)
  obtain ⟨store, shape, tabled⟩ := known.tables id inEarlier
  refine ⟨count ▸ part.length_le, ⟨store, by rw [shape], ?_⟩, fun before seen => ?_⟩
  · rw [count, ← List.prefix_iff_eq_take.mp part]
    exact tabled.shows enough
  · obtain ⟨beforeMembers, beforeGrows⟩ := applied_grows shorter enough (List.mem_cons_of_mem _ seen)
    obtain ⟨oldest, shortest, -⟩ := shorter.visited (List.mem_cons_of_mem _ seen)
    have order := (serving shortest enough).inOrder id (beforeMembers.symm ▸ inEarlier)
    rw [order.count, (known.inOrder id inEarlier).count]
    exact Int.ofNat_le.mpr (beforeGrows id inEarlier).length_le

theorem accepted_entry {position : Nat} {write : Int × RaftCommand} {before after : Servers}
    (step : StepWhen allowed rounds logged before (.propose position, .submitted true) after)
    (waits : before.writes[position]? = some write) :
    write.1 ∈ after.cluster.members ∧ (after.cluster.node write.1).state = .leader ∧
      (after.cluster.node write.1).currentTerm = (before.cluster.node write.1).currentTerm ∧
      (after.cluster.node write.1).log[(before.cluster.node write.1).log.length]? =
        some ⟨(before.cluster.node write.1).currentTerm, (before.cluster.node write.1).log.length, write.2.serialize⟩ := by
  obtain ⟨other, found, rest⟩ := Option.bind_eq_some_iff.mp step.1
  obtain rfl := Option.some.inj (waits.symm.trans found)
  obtain ⟨cluster, acted, same⟩ := Option.bind_eq_some_iff.mp rest
  obtain ⟨answer, rfl⟩ := Prod.mk.inj (Option.some.inj same)
  obtain ⟨member, shape⟩ := Cluster.guarded acted
  obtain rfl := Option.some.inj shape
  have accepted : ((before.cluster.node write.1).propose write.2.serialize).2 = true := by
    injection answer
  have leads : (before.cluster.node write.1).state = .leader := by
    by_contra follows
    rw [RaftNode.propose, if_pos follows] at accepted
    cases accepted
  refine ⟨member, ?_⟩
  change ((before.cluster.set write.1 _).node write.1).state = _ ∧ ((before.cluster.set write.1 _).node write.1).currentTerm = _ ∧
    ((before.cluster.set write.1 _).node write.1).log[_]? = _
  rw [Cluster.set_same, RaftNode.propose_leader leads]
  exact ⟨leads, rfl, List.getElem?_concat_length⟩

/-- The server has executed the command at the index, and what it did to the records. -/
def Executed (held : Int → Key → Option Record) (servers : Servers) (server : Int) (command : RaftCommand) (index : Nat) : Prop :=
  ∃ early late, (servers.cluster.node server).commits = early ++ (command.serialize, (index : Int)) :: late ∧
    (command.name.length < 2 ^ 32 →
      recordsAfter (held server) (early ++ [(command.serialize, (index : Int))]) =
        command.onRecords (recordsAfter (held server) early))

/-- A write that SubmitWrite accepted has one place in the history. In every later state each node with
an entry of the write's term at its index has the write there, and once such an entry is committed on
any node, every server that has applied that index executed the write there. -/
theorem accepted_write_placed (run : ReachesWhen Careful rounds logged base held past servers) (enough : maxPages + 1 < rounds)
    {before after : Servers} {older : List Servers} {position index : Nat} {write : Int × RaftCommand}
    (within : after :: before :: older <:+ servers :: past)
    (step : StepWhen Careful rounds logged before (.propose position, .submitted true) after)
    (waits : before.writes[position]? = some write) (last : index = (before.cluster.node write.1).log.length) :
    ∀ id ∈ servers.cluster.members, ∀ entry, (servers.cluster.node id).log[index]? = some entry →
      entry.term = (before.cluster.node write.1).currentTerm →
      entry.command = write.2.serialize ∧
      (index ≤ (servers.cluster.node id).commitIndex → ∀ other ∈ servers.cluster.members,
        index ≤ (servers.cluster.node other).lastApplied → Executed held servers other write.2 index) := by
  subst last
  obtain ⟨clusters, reached, seen⟩ := ReachesWhen.cluster run
  have reaches := Cluster.ReachesWhen.reaches reached
  obtain ⟨inAfter, leads, term, placed⟩ := accepted_entry step waits
  have visited : after.cluster ∈ servers.cluster :: clusters := by
    rcases List.mem_cons.mp (within.subset List.mem_cons_self) with rfl | inPast
    · exact List.mem_cons_self
    · exact seen after inPast
  have positive : 0 < (before.cluster.node write.1).log.length := by
    obtain ⟨longer, shorter, -⟩ := run.visited (within.subset (List.mem_cons_of_mem _ List.mem_cons_self))
    obtain ⟨_, early, -⟩ := ReachesWhen.cluster shorter
    obtain ⟨other, found, rest⟩ := Option.bind_eq_some_iff.mp step.1
    obtain ⟨cluster, acted, -⟩ := Option.bind_eq_some_iff.mp rest
    obtain rfl := Option.some.inj (waits.symm.trans found)
    exact log_pos (Cluster.ReachesWhen.reaches early) (Cluster.guarded acted).1
  intro id member entry found level
  have same := entry_of_leader reaches visited inAfter leads member placed found (level.trans term.symm)
  refine ⟨congrArg LogEntry.command same, fun committed other inside applied => ?_⟩
  have known := commitInv reached
  obtain ⟨k, index, covered⟩ := known.nodes id member
  have decided := covered.decided (m := (before.cluster.node write.1).log.length) (by omega) found
  have inOrder := (serving run enough).inOrder other inside
  have count := inOrder.count
  obtain ⟨early, late, calls⟩ := placed_call inOrder.numbered positive (by omega) fun call made number => by
    have one := known.calls other inside call made
    rw [number] at one
    rw [Decided.unique reached one decided, same]
  exact ⟨early, late, calls, fun short => by rw [recordsAfter_append, recordsAfter_serialize short]⟩

theorem propose_accepted {position : Nat} {write : Int × RaftCommand} {before after : Servers} {answer : ServerAnswer}
    (ran : before.act rounds logged (.propose position) = some (answer, after))
    (waits : before.writes[position]? = some write) (leads : (before.cluster.node write.1).state = .leader) :
    answer = .submitted true := by
  obtain ⟨other, found, rest⟩ := Option.bind_eq_some_iff.mp ran
  obtain rfl := Option.some.inj (waits.symm.trans found)
  obtain ⟨cluster, -, same⟩ := Option.bind_eq_some_iff.mp rest
  obtain ⟨rfl, -⟩ := Prod.mk.inj (Option.some.inj same)
  rw [RaftNode.propose, if_neg (not_not.mpr leads)]

theorem replicas_follow_history_trio : ∃ past servers history,
    ReachesWhen Careful (maxPages + 2) true (fun _ => strays []) (fun _ _ => none) past servers ∧
    (servers.cluster.node 2).lastApplied = 1 ∧ ∃ store, (servers.stateMachine 2).engine = some store ∧
      Shows (maxPages + 2) store (recordsAfter (fun _ => none) (List.take 1 history)) := by
  have applied : ∃ visited ∈ replay (actWhen Careful (maxPages + 2) true) trio written,
      2 ∈ visited.2.cluster.members ∧ (visited.2.cluster.node 2).lastApplied = 1 := by
    decide +kernel
  obtain ⟨visited, played, member, last⟩ := applied
  have run := initial_replay trio_initial played
  obtain ⟨history, shown⟩ := replicas_follow_history run (Nat.lt_succ_self _)
  obtain ⟨-, ⟨store, engine, shows⟩, -⟩ := shown _ _ (List.suffix_refl _) 2 member
  rw [last] at shows
  exact ⟨_, _, history, run, last, store, engine, shows⟩

theorem accepted_write_placed_trio : ∃ past servers,
    ReachesWhen Careful (maxPages + 2) true (fun _ => strays []) (fun _ _ => none) past servers ∧
    Executed (fun _ _ => none) servers 2 ⟨RaftCommand.insert, 5, [65], 7⟩ 1 := by
  have applied : ∃ first ∈ replay (actWhen Careful (maxPages + 2) true) trio (written.take 7),
      ∃ after ∈ actWhen Careful (maxPages + 2) true first.2 (.propose 0),
      ∃ rest ∈ replay (actWhen Careful (maxPages + 2) true) after (written.drop 8),
      first.2.writes[0]? = some (1, ⟨RaftCommand.insert, 5, [65], 7⟩) ∧ (first.2.cluster.node 1).state = .leader ∧
      1 = (first.2.cluster.node 1).log.length ∧ (first.2.cluster.node 1).currentTerm = 1 ∧
      2 ∈ rest.2.cluster.members ∧ (rest.2.cluster.node 2).lastApplied = 1 ∧ (rest.2.cluster.node 2).commitIndex = 1 ∧
      (rest.2.cluster.node 2).log[1]? = some ⟨1, 1, RaftCommand.serialize ⟨RaftCommand.insert, 5, [65], 7⟩⟩ := by
    decide +kernel
  obtain ⟨first, early, after, moved, rest, late, waits, leads, last, term, member, applied, commit, found⟩ := applied
  obtain ⟨careful, acts⟩ := Cluster.guarded moved
  obtain ⟨⟨answer, same⟩, acted, rfl⟩ := Option.map_eq_some_iff.mp acts
  obtain rfl := propose_accepted acted waits leads
  have step : StepWhen Careful (maxPages + 2) true first.2 (.propose 0, .submitted true) same := ⟨acted, careful⟩
  have run := replay_onward ((initial_replay trio_initial early).next step) late
  have within : same :: first.2 :: first.1 <:+ rest.2 :: (rest.1 ++ first.2 :: first.1) := by
    obtain ⟨more, starts⟩ := replay_starts late
    exact ⟨more, by rw [← List.cons_append, ← starts, List.append_assoc]; rfl⟩
  have placed := accepted_write_placed run (Nat.lt_succ_self _) within step waits last 2 member _ found term.symm
  exact ⟨_, _, run, placed.2 (by rw [commit]; decide) 2 member (by rw [applied]; decide)⟩

end Servers

end QuorumDB.Raft
