import QuorumDB.Raft.Replication
import QuorumDB.Raft.Safety

/-!
The committed prefix of a node is permanent in the executions whose votes and
acknowledgements are taken with care.
-/

namespace QuorumDB.Raft
open Execution TermLog

/-- The commit index points into the log, everything up to it is applied, and what an earlier
state had committed is still there. -/
def PermanentPrefix (past : List Cluster) (cluster : Cluster) : Prop :=
  ∀ id ∈ cluster.members, (cluster.node id).commitIndex < (cluster.node id).log.length ∧
    (cluster.node id).lastApplied = (cluster.node id).commitIndex ∧
    ∀ earlier ∈ past, (earlier.node id).commitIndex ≤ (cluster.node id).commitIndex ∧
      (cluster.node id).log.take ((earlier.node id).commitIndex.toNat + 1) =
        (earlier.node id).log.take ((earlier.node id).commitIndex.toNat + 1)

section Runs

variable {past : List Cluster} {cluster later : Cluster} {action : Action}

theorem commitIndex_lt (run : CarefullyReaches past cluster) {id : Int} (member : id ∈ cluster.members) :
    (cluster.node id).commitIndex < (cluster.node id).log.length := by
  obtain ⟨k, index, -, -, -, -, -, inside, -⟩ := (commitInv run).nodes id member
  omega

/-- A request carries everything its leader has up to the commit index it names. -/
def RequestsReach (cluster : Cluster) : Prop :=
  ∀ target term leader (args : AppendEntriesArgs), .appendRequest target term leader args ∈ cluster.net →
    args.leaderCommit ≤ args.prevLogIndex + args.entries.length

theorem requestsReach (run : CarefullyReaches past cluster) : RequestsReach cluster := by
  refine @Run.invariant _ _ Cluster.Initial (Cluster.StepWhen Careful) (fun _ state => RequestsReach state) ?_ ?_ _ _ run
  · intro fresh initial target term leader args inFlight
    rw [initial.2.2.1] at inFlight
    cases inFlight
  · intro past cluster action later before known step target term leader args inFlight
    rcases (Cluster.step_effect step.1).sent inFlight with old | sent
    · exact known target term leader args old
    · cases sent with
      | @appendRequest id peer _ member sender leads listed built =>
        have inside := commitIndex_lt before member
        obtain ⟨commit, pre, prev, whole, index, -⟩ := heartbeatFor_served built
        rw [← whole, List.length_append, List.length_cons] at inside
        omega

theorem Cluster.Move.commitIndex_mono {packet : Option Packet} {id : Int} {node : RaftNode}
    (move : cluster.Move packet id node) (reach : RequestsReach cluster) :
    (cluster.node id).commitIndex ≤ node.commitIndex := by
  rcases move.commitIndex_cases with raised | ⟨-, term, leader, args, inFlight, -, above, same⟩
  · exact raised
  · have enough := reach id term leader args inFlight
    rw [same]
    omega

theorem committed_kept (before : CarefullyReaches past cluster) (step : CarefulStep cluster action later) {id : Int}
    (member : id ∈ cluster.members) :
    (cluster.node id).log.take ((cluster.node id).commitIndex.toNat + 1) <+: (later.node id).log := by
  obtain ⟨k, index, covered⟩ := (commitInv before).nodes id member
  have reached := Cluster.ReachesWhen.reaches before
  rw [index, Int.toNat_natCast]
  cases ((Cluster.step_effect step.1).move id).commit with
  | keep log term commit calls => exact (List.take_prefix _ _).trans log
  | repair inFlight term matching log commit =>
    obtain ⟨n, -, inside, repaired⟩ := (logInv reached).repaired member inFlight matching log
    exact covered.repaired before term inside repaired
  | advance n entry leads log term commit above located own enough calls =>
    rw [log]
    exact List.take_prefix _ _

theorem permanentPrefix_step (before : CarefullyReaches past cluster) (step : CarefulStep cluster action later)
    (known : PermanentPrefix past cluster) : PermanentPrefix (cluster :: past) later := by
  intro id inLater
  have run : CarefullyReaches (cluster :: past) later := .next before step
  have effect := Cluster.step_effect step.1
  have member : id ∈ cluster.members := effect.members ▸ inLater
  have reached := Cluster.ReachesWhen.reaches before
  have nonneg := commitIndex_nonneg reached member
  have raised := (effect.move id).commitIndex_mono (requestsReach before)
  have front := committed_kept before step member
  obtain ⟨inside, applied, old⟩ := known id member
  have size : ((cluster.node id).log.take ((cluster.node id).commitIndex.toNat + 1)).length =
      (cluster.node id).commitIndex.toNat + 1 := by
    rw [List.length_take]
    omega
  -- anything committed earlier is inside the part this step keeps
  have kept : ∀ count ≤ (cluster.node id).commitIndex.toNat + 1,
      (later.node id).log.take count = (cluster.node id).log.take count := fun count below => by
    rw [← take_prefix_take front (below.trans size.ge), List.take_take, min_eq_left below]
  refine ⟨commitIndex_lt run inLater, ?_, fun earlier seen => ?_⟩
  · rcases Cluster.step_act step.1 id with same | ⟨moved, acted⟩
    · rw [same]
      exact applied
    · have all := (RaftNode.act_sound (node_sound reached member) acted).2.1
      rw [all, applied, max_eq_right raised]
  · rcases List.mem_cons.mp seen with rfl | inPast
    · exact ⟨raised, kept _ (Nat.le_refl _)⟩
    · obtain ⟨below, same⟩ := old earlier inPast
      exact ⟨below.trans raised, (kept _ (by omega)).trans same⟩

/-- The committed prefix of every node is permanent where votes and acknowledgements are taken with care. -/
theorem committed_prefix_permanent (run : CarefullyReaches past cluster) : PermanentPrefix past cluster := by
  refine @Run.invariant _ _ Cluster.Initial (Cluster.StepWhen Careful) (fun past state => PermanentPrefix past state) ?_
    (fun _ _ _ _ before known step => permanentPrefix_step before step known) _ _ run
  intro fresh initial id member
  obtain ⟨peers, onCommit, shape, -⟩ := initial.2.2.2 id member
  rw [shape]
  exact ⟨Int.zero_lt_one, rfl, fun earlier impossible => absurd impossible List.not_mem_nil⟩

end Runs

theorem committed_prefix_permanent_trio : ∃ past cluster, CarefullyReaches past cluster ∧
    (cluster.node 2).commitIndex = 1 ∧ PermanentPrefix past cluster := by
  have applied : ∃ visited ∈ replay (Cluster.actWhen Careful) Cluster.trio replication,
      (visited.2.node 2).commitIndex = 1 := by
    decide +kernel
  obtain ⟨visited, played, index⟩ := applied
  have run := Cluster.trio_replay played
  exact ⟨_, _, run, index, committed_prefix_permanent run⟩

/-- Node 1 commits a command that the next leader does not have, and loses it. -/
theorem committed_prefix_permanent_fails : ¬ ∀ past cluster,
    Cluster.ReachesWhen Cluster.NoDuplicate past cluster → PermanentPrefix past cluster := by
  intro permanent
  have lost : ∃ visited ∈ replay (Cluster.actWhen Cluster.NoDuplicate) Cluster.trio
      [.start 1, .start 2, .start 3, .startElection 1, .deliver 0, .deliver 1, .propose 1 [0x61],
        .sendHeartbeats 1, .deliver 1, .deliver 2, .startElection 3, .startElection 3, .deliver 5, .deliver 5,
        .propose 3 [0x62], .sendHeartbeats 3, .deliver 5],
      visited.2.members = [1, 2, 3] ∧ ∃ earlier ∈ visited.1, (earlier.node 1).commitIndex = 1 ∧
        (visited.2.node 1).log.take 2 ≠ (earlier.node 1).log.take 2 := by
    decide +kernel
  obtain ⟨visited, played, members, earlier, seen, index, different⟩ := lost
  have same := ((permanent _ _ (Cluster.trio_replay played) 1 (by rw [members]; decide)).2.2 earlier seen).2
  rw [index] at same
  exact different same

end QuorumDB.Raft
