import QuorumDB.Raft.Permanence

/-!
What a leader holds. While it leads a term its log only grows, in every execution. Where votes and
acknowledgements are taken with care, it has everything that any node has committed which had
not gone on to a later term.
-/

namespace QuorumDB.Raft
open Execution TermLog

section Runs

variable {past older : List Cluster} {cluster earlier : Cluster} {id leader : Int}

/-- A leader never drops or replaces an entry: whenever it was seen to lead the term it leads now, its log
was a front of what it is. -/
theorem leader_append_only (run : Cluster.Reaches past cluster) (member : id ∈ cluster.members)
    (leads : (cluster.node id).state = .leader) (seen : earlier ∈ past) (led : (earlier.node id).state = .leader)
    (level : (earlier.node id).currentTerm = (cluster.node id).currentTerm) :
    (earlier.node id).log <+: (cluster.node id).log := by
  obtain ⟨before, reached, within⟩ := run.visited (List.mem_cons_of_mem _ seen)
  have inside : id ∈ earlier.members := (membership run.loosely).constant earlier seen ▸ member
  have listed := termLog_earlier run within (earlier.node id).currentTerm
  rw [termLog_leader reached inside led, level, termLog_leader run member leads] at listed
  exact listed

/-- What something committed covers is in the list of every later term that had a leader. -/
theorem Covered.carried (run : CarefullyReaches past cluster) {limit term : Int} {log : List LogEntry} {k : Nat}
    (covered : Covered cluster.members (cluster :: past) limit log k) (reached : limit ≤ term)
    (filled : termLog (cluster :: past) term ≠ []) : log.take (k + 1) <+: termLog (cluster :: past) term := by
  obtain ⟨origin, n, bound, below, committed, present, listed⟩ := covered
  rcases (bound.trans reached).lt_or_eq with above | same
  · have extending : Extends (cluster :: past) (termLog (cluster :: past)) :=
      ⟨fun _ => List.prefix_refl _, (logInv (Cluster.ReachesWhen.reaches run)).bounded⟩
    have carried := committed.kept run extending above filled
    refine List.IsPrefix.trans ?_ carried
    apply List.prefix_of_prefix_length_le listed (List.take_prefix _ _)
    obtain ⟨entry, found, -⟩ := committed.own
    have long := lt_of_getElem? found
    rw [List.length_take, List.length_take]
    omega
  · rw [← same]
    exact listed

theorem Covered.onward (run : CarefullyReaches past cluster) (within : earlier :: older <:+ cluster :: past) {limit : Int}
    {log : List LogEntry} {k : Nat} (covered : Covered earlier.members (earlier :: older) limit log k) :
    Covered cluster.members (cluster :: past) limit log k := by
  refine @Run.onward _ _ _ _ (fun past state => Covered state.members (state :: past) limit log k) earlier older covered ?_
    _ _ run within
  intro past state action later before known step
  exact known.step (Cluster.ReachesWhen.reaches before) step.1 (le_refl _) (List.take_prefix _ _)

/-- A leader has what was covered, in a term not above its own, at any time. -/
theorem Covered.led (run : CarefullyReaches past cluster) (within : earlier :: older <:+ cluster :: past) {limit : Int}
    {log : List LogEntry} {k : Nat} (covered : Covered earlier.members (earlier :: older) limit log k)
    (member : leader ∈ cluster.members) (leads : (cluster.node leader).state = .leader)
    (level : limit ≤ (cluster.node leader).currentTerm) : log.take (k + 1) <+: (cluster.node leader).log := by
  have reached := Cluster.ReachesWhen.reaches run
  have listed := termLog_leader reached member leads
  have filled : termLog (cluster :: past) (cluster.node leader).currentTerm ≠ [] := by
    rw [listed]
    exact List.ne_nil_of_length_pos (log_pos reached member)
  have carried := (covered.onward run within).carried run level filled
  rw [listed] at carried
  exact carried

/-- A leader has what any node had committed, at any time, in a term not above the leader's. -/
theorem leader_completeness (run : CarefullyReaches past cluster) (leaderMember : leader ∈ cluster.members)
    (leads : (cluster.node leader).state = .leader) (member : id ∈ cluster.members) (seen : earlier ∈ cluster :: past)
    (level : (earlier.node id).currentTerm ≤ (cluster.node leader).currentTerm) :
    (earlier.node id).log.take ((earlier.node id).commitIndex.toNat + 1) <+: (cluster.node leader).log := by
  obtain ⟨before, shorter, within⟩ := run.visited seen
  have reached := Cluster.ReachesWhen.reaches run
  have inside : id ∈ earlier.members := by
    rcases List.mem_cons.mp seen with rfl | inPast
    · exact member
    · exact (membership reached.loosely).constant earlier inPast ▸ member
  obtain ⟨k, index, covered⟩ := (commitInv shorter).nodes id inside
  rw [index, Int.toNat_natCast]
  exact covered.led run within leaderMember leads level

end Runs

theorem leader_append_only_trio : ∃ past earlier cluster, Cluster.Reaches past cluster ∧ earlier ∈ past ∧
    (earlier.node 1).log.length = 2 ∧ (cluster.node 1).log.length = 3 ∧ (earlier.node 1).log <+: (cluster.node 1).log := by
  have grown : ∃ visited ∈ replay (Cluster.actWhen Careful) Cluster.trio (replication ++ [.propose 1 [0x62]]),
      ∃ earlier ∈ visited.1, 1 ∈ visited.2.members ∧ (visited.2.node 1).state = .leader ∧ (earlier.node 1).state = .leader ∧
      (earlier.node 1).currentTerm = (visited.2.node 1).currentTerm ∧ (earlier.node 1).log.length = 2 ∧
      (visited.2.node 1).log.length = 3 := by
    decide +kernel
  obtain ⟨visited, played, earlier, seen, member, leads, led, level, short, long⟩ := grown
  have run := Cluster.ReachesWhen.reaches (Cluster.trio_replay played)
  exact ⟨_, earlier, _, run, seen, short, long, leader_append_only run member leads seen led level⟩

/-- Node 2 is elected by node 3 after node 1 committed. -/
theorem leader_completeness_trio : ∃ past earlier cluster, CarefullyReaches past cluster ∧ earlier ∈ cluster :: past ∧
    (cluster.node 2).state = .leader ∧ (earlier.node 1).commitIndex = 1 ∧
    (earlier.node 1).log.take 2 <+: (cluster.node 2).log := by
  have elected : ∃ visited ∈ replay (Cluster.actWhen Careful) Cluster.trio
        (replication ++ [.startElection 2, .deliver 5, .deliver 5]),
      ∃ earlier ∈ visited.2 :: visited.1, 2 ∈ visited.2.members ∧ 1 ∈ visited.2.members ∧
      (visited.2.node 2).state = .leader ∧ (earlier.node 1).commitIndex = 1 ∧
      (earlier.node 1).currentTerm ≤ (visited.2.node 2).currentTerm := by
    decide +kernel
  obtain ⟨visited, played, earlier, seen, leader, member, leads, commit, level⟩ := elected
  have run := Cluster.trio_replay played
  have held := leader_completeness run leader leads member seen level
  rw [commit] at held
  exact ⟨_, earlier, _, run, seen, leads, commit, held⟩

end QuorumDB.Raft
