import QuorumDB.Raft.Replication

/-!
What a running leader leaves uncommitted. The commit index is recomputed for every
acknowledgement, and Propose, which can make one more index committable, leaves it alone.
-/

namespace QuorumDB.Raft
open Execution TermLog

namespace RaftNode

def Committable (node : RaftNode) (n : Int) : Prop :=
  ∃ entry, node.logAt n = some entry ∧ entry.term = node.currentTerm ∧ node.clusterSize / 2 < node.matchCount n

def CommitsAll (node : RaftNode) : Prop :=
  ∀ n, node.Committable n → n ≤ node.commitIndex

/-- What Propose appends is not committable at once, or it is below the commit index. -/
def EntryWaits (node : RaftNode) : Prop :=
  node.log.length ≤ node.commitIndex ∨ node.matchCount node.log.length ≤ node.clusterSize / 2

instance (node : RaftNode) : Decidable node.EntryWaits :=
  inferInstanceAs (Decidable (_ ∨ _))

variable {node later : RaftNode}

/-- The scan passes no committable index by. -/
theorem commitScan_commits {rounds : Nat} (ran : node.commitScan rounds = some later) {n : Int} (below : n < rounds)
    (committable : node.Committable n) : n ≤ later.commitIndex := by
  obtain ⟨entry, found, current, enough⟩ := committable
  have low := (logAt_some found).1
  induction rounds with
  | zero => omega
  | succ top ih =>
    unfold commitScan at ran
    by_cases above : (top : Int) > node.commitIndex
    · rw [if_pos above] at ran
      by_cases here : n = top
      · subst here
        simp only [found, current, gt_iff_lt, enough, and_self, ↓reduceIte] at ran
        obtain ⟨lastApplied, commits, rfl, -⟩ := applyCommittedEntriesLocked_cases ran
        exact Int.le_refl _
      · split at ran
        · cases ran
        · split_ifs at ran with counted
          · obtain ⟨lastApplied, commits, rfl, -⟩ := applyCommittedEntriesLocked_cases ran
            change n ≤ top
            omega
          · exact ih ran (by omega)
    · rw [if_neg above] at ran
      obtain rfl := Option.some.inj ran
      omega

theorem advance_commitsAll (ran : node.advanceCommitIndexLocked = some later) : later.CommitsAll := by
  rintro n ⟨entry, found, current, enough⟩
  have kept : node.Committable n := by
    rcases commitScan_cases ran with rfl | ⟨m, last, lastApplied, commits, -, -, -, -, rfl, -⟩
    · exact ⟨entry, found, current, enough⟩
    · exact ⟨entry, found, current, enough⟩
  refine commitScan_commits ran ?_ kept
  obtain ⟨_, here, -⟩ := kept
  have low := (logAt_some here).1
  have inside := lt_of_getElem? (logAt_some here).2
  omega

theorem propose_commitsAll (leads : node.state = .leader) (known : node.CommitsAll) (command : Bytes) :
    (node.propose command).1.CommitsAll ↔ node.EntryWaits := by
  have shape := @propose_leader node command leads
  have last : (node.propose command).1.logAt node.log.length = some ⟨node.currentTerm, node.log.length, command⟩ := by
    rw [shape, logAt, if_pos (Int.natCast_nonneg _), Int.toNat_natCast]
    exact List.getElem?_concat_length
  constructor
  · intro complete
    by_contra waits
    obtain ⟨above, enough⟩ := not_or.mp waits
    have committed := complete node.log.length ⟨_, last, by rw [shape], by rw [shape]; exact Nat.lt_of_not_le enough⟩
    rw [shape] at committed
    exact above committed
  · rintro waits n ⟨entry, found, current, enough⟩
    rw [shape] at current enough ⊢
    have low := (logAt_some found).1
    by_cases new : n = node.log.length
    · subst new
      exact waits.resolve_right (Nat.not_le_of_lt enough)
    · have inside := lt_of_getElem? (logAt_some found).2
      rw [shape] at found inside
      rw [List.length_append, List.length_singleton] at inside
      have old : node.logAt n = some entry := by
        unfold logAt at found ⊢
        rw [if_pos low] at found ⊢
        rw [← found]
        exact (List.getElem?_append_left (by omega)).symm
      exact known n ⟨entry, old, current, enough⟩

/-- A step of a node that leads before and after: only Propose asks for more than was so before. -/
theorem act_commitsAll {action : NodeAction} (moved : node.act action = some later) (led : node.state = .leader)
    (leads : later.state = .leader) (runs : later.running = true) (known : node.running = true → node.CommitsAll)
    (waits : ∀ command, action = .propose command → node.running = true → node.EntryWaits) : later.CommitsAll := by
  cases act_turn moved with
  | same => exact known runs
  | start => cases leads
  | stop => cases runs
  | setOnCommitCallback => exact known runs
  | campaign _ free => exact absurd led free
  | winAlone _ free => exact absurd led free
  | @propose command =>
    rw [← propose_leader led]
    exact (propose_commitsAll led (known runs) command).mpr (waits command rfl runs)
  | vote => cases leads
  | follow => cases leads
  | accept fresh matching accepted =>
    obtain ⟨commitIndex, lastApplied, commits, rfl⟩ := acceptEntries_frame accepted
    cases leads
  | stepDown => cases leads
  | count campaigning => cases led.symm.trans campaigning
  | win campaigning => cases led.symm.trans campaigning
  | back => exact known runs
  | acknowledge _ advanced => exact advance_commitsAll advanced

end RaftNode

/-- Every running leader has committed all its quorum allows. -/
def LeadersCommit (cluster : Cluster) : Prop :=
  ∀ id ∈ cluster.members, (cluster.node id).running = true → (cluster.node id).state = .leader →
    (cluster.node id).CommitsAll

/-- No running leader is given a command that its quorum would allow at once. -/
def ProposalsWait (cluster : Cluster) : Action → Prop
  | .propose id _ => (cluster.node id).running = true → (cluster.node id).state = .leader → (cluster.node id).EntryWaits
  | _ => True

instance (cluster : Cluster) : (action : Action) → Decidable (ProposalsWait cluster action)
  | .propose .. => inferInstanceAs (Decidable (_ → _))
  | .start _ | .stop _ | .startElection _ | .sendHeartbeats _ | .deliver _ | .drop _ | .duplicate _ =>
      inferInstanceAs (Decidable True)

section Runs

variable {past : List Cluster} {cluster later : Cluster} {action : Action}

theorem elected_commitsAll (before : Cluster.Reaches past cluster) (step : Cluster.Step cluster action later) {id : Int}
    (member : id ∈ cluster.members) (led : (cluster.node id).state ≠ .leader) (leads : (later.node id).state = .leader) :
    (later.node id).CommitsAll := by
  rintro n ⟨entry, found, current, -⟩
  cases ((Cluster.step_effect step).move id).log with
  | keep log term lead => exact absurd (lead leads).1 led
  | extend command before_leads after_leads term log => exact absurd before_leads led
  | repair inFlight term follows matching log => cases follows.symm.trans leads
  | elect log leads newly =>
    have none := termLog_fresh before step member leads newly
    have here := (logAt_some found).2
    rw [log] at here
    have listed := ((logInv before).logs id member).coherent _ _ here
    rw [current, none, List.prefix_nil] at listed
    have inside := lt_of_getElem? here
    have empty := congrArg List.length listed
    rw [List.length_take, List.length_nil] at empty
    omega

theorem leadersCommit_step (before : Cluster.Reaches past cluster) (step : Cluster.Step cluster action later)
    (waits : ProposalsWait cluster action) (known : LeadersCommit cluster) : LeadersCommit later := by
  intro id inLater runs leads
  have member : id ∈ cluster.members := (Cluster.step_effect step).members ▸ inLater
  by_cases led : (cluster.node id).state = .leader
  · rcases Cluster.step_moved step id with same | ⟨moved, acted, named⟩
    · rw [same] at runs ⊢
      exact known id member runs led
    · refine RaftNode.act_commitsAll acted led leads runs (fun running => known id member running led) ?_
      intro command proposing running
      rw [named command proposing] at waits
      exact waits running led
  · exact elected_commitsAll before step member led leads

theorem proposalsWait_of_commit (step : Cluster.Step cluster action later) (known : LeadersCommit cluster)
    (complete : LeadersCommit later) : ProposalsWait cluster action := by
  cases action with
  | propose id command =>
    intro runs leads
    obtain ⟨member, shape⟩ := Cluster.guarded step
    cases Option.some.inj shape
    have kept := @RaftNode.propose_leader (cluster.node id) command leads
    apply (RaftNode.propose_commitsAll leads (known id member runs leads) command).mp
    have all := complete id member
    rw [Cluster.set_same] at all
    exact all (by rw [kept]; exact runs) (by rw [kept]; exact leads)
  | _ => trivial

/-- The leaders of a run commit all that their quorums allow, in every state, exactly when each
command proposed to one of them can wait. -/
theorem leaders_commit (run : Cluster.Reaches past cluster) :
    (∀ state ∈ cluster :: past, LeadersCommit state) ↔ Cluster.ReachesWhen ProposalsWait past cluster := by
  constructor
  · intro complete
    induction run with
    | start fresh => exact .start fresh
    | next before step ih =>
      have known := complete _ (List.mem_cons_of_mem _ List.mem_cons_self)
      have earlier := ih fun state seen => complete state (List.mem_cons_of_mem _ seen)
      exact .next earlier ⟨step, proposalsWait_of_commit step known (complete _ List.mem_cons_self)⟩
  · intro waiting
    refine @Run.invariant _ _ Cluster.Initial (Cluster.StepWhen ProposalsWait)
      (fun past state => ∀ visited ∈ state :: past, LeadersCommit visited) ?_ ?_ _ _ waiting
    · intro cluster fresh visited seen id member runs leads
      rw [List.mem_singleton.mp seen] at member leads
      obtain ⟨peers, onCommit, shape, -⟩ := fresh.2.2.2 id member
      rw [shape] at leads
      cases leads
    · intro past cluster action later before known step visited seen
      rcases List.mem_cons.mp seen with rfl | earlier
      · exact leadersCommit_step (Cluster.ReachesWhen.reaches before) step.1 step.2 (known cluster List.mem_cons_self)
      · exact known visited earlier

end Runs

theorem leaders_commit_trio : ∃ past cluster, Cluster.Reaches past cluster ∧ (cluster.node 1).commitIndex = 1 ∧
    ∀ state ∈ cluster :: past, LeadersCommit state := by
  have replicated : ∃ visited ∈ replay (Cluster.actWhen ProposalsWait) Cluster.trio
      [.start 1, .start 2, .start 3, .startElection 1, .deliver 0, .deliver 1, .propose 1 [0x61],
        .sendHeartbeats 1, .deliver 1, .deliver 2],
      (visited.2.node 1).commitIndex = 1 := by
    decide +kernel
  obtain ⟨visited, played, index⟩ := replicated
  have waiting := Cluster.trio_replay played
  have run := Cluster.ReachesWhen.reaches waiting
  exact ⟨_, _, run, index, (leaders_commit run).mpr waiting⟩

def Cluster.solo : Cluster where
  members := [1]
  node := fun id => RaftNode.new id [] true
  net := []

theorem Cluster.solo_initial : Cluster.solo.Initial := by
  refine ⟨by decide, by decide, rfl, fun id member => ⟨[], true, rfl, List.nodup_nil, fun peer => ?_⟩⟩
  refine iff_of_false List.not_mem_nil ?_
  rintro ⟨listed, different⟩
  exact different ((List.mem_singleton.mp listed).trans (List.mem_singleton.mp member).symm)

/-- The only node of a cluster wins, is given a command, and does not commit it. -/
theorem leaders_commit_fails : ¬ ∀ past cluster, Cluster.Reaches past cluster → LeadersCommit cluster := by
  intro complete
  have proposed : ∃ visited ∈ replay (Cluster.actWhen Cluster.NoDuplicate) Cluster.solo
      [.start 1, .startElection 1, .propose 1 [0x61]],
      visited.2.members = [1] ∧ (visited.2.node 1).running = true ∧ (visited.2.node 1).state = .leader ∧
        (visited.2.node 1).logAt 1 = some ⟨1, 1, [0x61]⟩ ∧ (visited.2.node 1).currentTerm = 1 ∧
        (visited.2.node 1).clusterSize / 2 < (visited.2.node 1).matchCount 1 ∧ (visited.2.node 1).commitIndex = 0 := by
    decide +kernel
  obtain ⟨visited, played, members, runs, leads, found, term, enough, index⟩ := proposed
  have run := Cluster.ReachesWhen.reaches (Cluster.initial_replay Cluster.solo_initial played)
  have committed := complete _ _ run 1 (by rw [members]; decide) runs leads 1 ⟨_, found, term.symm, enough⟩
  rw [index] at committed
  exact absurd committed (by decide)

end QuorumDB.Raft
