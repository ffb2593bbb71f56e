import QuorumDB.Raft.Replication
import QuorumDB.Raft.Safety

/-!
Requests that arrive again or late. A second handling finds everything in place, and a
request that a later one of the same leader has overtaken has nothing left to do.
-/

namespace QuorumDB.Raft
open Execution TermLog
open RaftNode (placeEntry placeEntries)

/-- The log has an entry of the same term at the place of each of these. -/
def InPlace (log : List LogEntry) (position : Nat) (entries : List LogEntry) : Prop :=
  ∀ (offset : Nat) (entry : LogEntry), entries[offset]? = some entry →
    ∃ old, log[position + 1 + offset]? = some old ∧ old.term = entry.term

theorem placeEntries_inPlace {log entries : List LogEntry} {position : Nat} (placed : InPlace log position entries) :
    placeEntries log position entries = log := by
  induction entries generalizing position with
  | nil => rfl
  | cons first rest ih =>
    obtain ⟨old, found, same⟩ := placed 0 first rfl
    have kept : placeEntry log (position + 1) first = log := by
      rw [Nat.add_zero] at found
      simp only [placeEntry, found, same, ne_eq, not_true_eq_false, ↓reduceIte]
    rw [placeEntries, kept]
    apply ih
    intro offset entry inRest
    have shift : position + 1 + 1 + offset = position + 1 + (offset + 1) := by omega
    rw [shift]
    exact placed (offset + 1) entry inRest

theorem placeEntry_inPlace {log : List LogEntry} {position : Nat} (inside : position < log.length) (entry : LogEntry) :
    ∃ old, (placeEntry log (position + 1) entry)[position + 1]? = some old ∧ old.term = entry.term := by
  have size : (log.take (position + 1)).length = position + 1 := by
    rw [List.length_take]
    omega
  unfold placeEntry
  cases found : log[position + 1]? with
  | none =>
    have full : log.length = position + 1 := by
      have past := List.getElem?_eq_none_iff.mp found
      omega
    refine ⟨entry, ?_, rfl⟩
    simp only
    rw [← full, List.getElem?_concat_length]
  | some old =>
    by_cases same : old.term = entry.term
    · refine ⟨old, ?_, same⟩
      simp only [same, ne_eq, not_true_eq_false, ↓reduceIte]
      exact found
    · refine ⟨entry, ?_, rfl⟩
      simp only [same, ne_eq, not_false_eq_true, ↓reduceIte]
      rw [List.getElem?_append_right size.le, size, Nat.sub_self]
      rfl

theorem inPlace_placeEntries {log entries : List LogEntry} {position : Nat} (inside : position < log.length) :
    InPlace (placeEntries log position entries) position entries := by
  induction entries generalizing log position with
  | nil => exact fun offset entry impossible => nomatch impossible
  | cons first rest ih =>
    obtain ⟨old, found, same⟩ := placeEntry_inPlace inside first
    have more : position + 1 < (placeEntry log (position + 1) first).length := lt_of_getElem? found
    obtain ⟨-, kept, -⟩ := @placeEntries_shape _ rest _ more
    intro offset entry inEntries
    cases offset with
    | zero =>
      rw [List.getElem?_cons_zero] at inEntries
      obtain rfl := Option.some.inj inEntries
      refine ⟨old, ?_, same⟩
      -- the later passes leave everything up to this place alone
      rw [placeEntries, Nat.add_zero, ← getElem?_take_succ, kept, getElem?_take_succ]
      exact found
    | succ offset =>
      have shift : position + 1 + (offset + 1) = position + 1 + 1 + offset := by omega
      rw [placeEntries, shift]
      exact ih more offset entry inEntries

namespace RaftNode

variable {node later : RaftNode} {args : AppendEntriesArgs} {term leader : Int} {reply : RpcMessage}

theorem repairLog_inPlace (placed : InPlace node.log args.prevLogIndex.toNat args.entries) : node.repairLog args = node := by
  unfold repairLog
  rw [placeEntries_inPlace placed]

theorem acceptEntries_commit (ran : node.acceptEntries args = some later) :
    min args.leaderCommit (args.prevLogIndex + args.entries.length) ≤ later.commitIndex := by
  unfold acceptEntries at ran
  split_ifs at ran with fresh
  · obtain ⟨lastApplied, commits, rfl, -⟩ := applyCommittedEntriesLocked_cases ran
    exact Int.le_refl _
  · obtain rfl := Option.some.inj ran
    exact (min_le_left _ _).trans (Int.not_lt.mp fresh)

theorem acceptEntries_covered (placed : InPlace node.log args.prevLogIndex.toNat args.entries)
    (applied : args.leaderCommit > node.commitIndex →
      min args.leaderCommit (args.prevLogIndex + args.entries.length) ≤ node.lastApplied) :
    node.acceptEntries args = some (if args.leaderCommit > node.commitIndex then
      node.setCommitIndex (min args.leaderCommit (args.prevLogIndex + args.entries.length)) else node) := by
  unfold acceptEntries
  rw [repairLog_inPlace placed]
  by_cases fresh : args.leaderCommit > node.commitIndex
  · rw [if_pos fresh, if_pos fresh]
    generalize min args.leaderCommit (args.prevLogIndex + args.entries.length) = commitIndex at applied ⊢
    have done := applied fresh
    have none : (commitIndex - node.lastApplied).toNat = 0 := by omega
    change applyRounds (commitIndex - node.lastApplied).toNat _ = _
    rw [none]
    rfl
  · rw [if_neg fresh, if_neg fresh]

theorem acceptEntries_again (low : 0 ≤ args.prevLogIndex) (inside : args.prevLogIndex < node.log.length)
    (ran : node.acceptEntries args = some later) : later.acceptEntries args = some later := by
  have placed : InPlace later.log args.prevLogIndex.toNat args.entries := by
    rw [acceptEntries_log ran]
    exact inPlace_placeEntries (by omega)
  unfold acceptEntries at ran
  by_cases fresh : args.leaderCommit > node.commitIndex
  · rw [if_pos fresh] at ran
    obtain ⟨commits, rfl, -⟩ := applyRounds_cases ran
    rw [acceptEntries_covered placed fun _ => ?_]
    · split_ifs
      · rfl
      · rfl
    · change min args.leaderCommit (args.prevLogIndex + args.entries.length) ≤ node.lastApplied +
        ((min args.leaderCommit (args.prevLogIndex + args.entries.length) - node.lastApplied).toNat : Int)
      omega
  · rw [if_neg fresh] at ran
    obtain rfl := Option.some.inj ran
    rw [acceptEntries_covered placed fun above => absurd above fresh]
    exact congrArg some (if_neg fresh)

theorem seeLeader_self (level : node.currentTerm = term) (follows : node.state = .follower) (led : node.leaderId = leader) :
    node.seeLeader term leader = node := by
  unfold seeLeader
  rw [if_neg (by omega), ← follows, ← led]

theorem handleAppendEntries_seen (fresh : node.currentTerm ≤ term) :
    (node.seeLeader term leader).handleAppendEntries term leader args = node.handleAppendEntries term leader args := by
  have seen := seeLeader_eq leader fresh
  have again : (node.seeLeader term leader).seeLeader term leader = node.seeLeader term leader := by
    apply seeLeader_self <;> rw [seen]
  obtain ⟨log, -⟩ := seeLeader_fields node term leader
  have level : (node.seeLeader term leader).currentTerm = term := by rw [seen]
  unfold handleAppendEntries
  rw [again, logAt, log, level, if_pos (le_refl term), if_pos fresh]
  rfl

theorem handleAppendEntries_again (low : 0 ≤ args.prevLogIndex)
    (ran : node.handleAppendEntries term leader args = some (later, reply)) :
    later.handleAppendEntries term leader args = some (later, reply) := by
  rcases handleAppendEntries_cases ran with ⟨-, rfl, -⟩ | ⟨fresh, rfl, -⟩ | ⟨fresh, rfl, ⟨prev, found, matching⟩, accepted⟩
  · exact ran
  · rw [handleAppendEntries_seen fresh]
    exact ran
  · obtain ⟨log, -⟩ := seeLeader_fields node term leader
    obtain ⟨-, follows, level, -⟩ := acceptEntries_ballot accepted
    have inside := lt_of_getElem? (logAt_some found).2
    have short : args.prevLogIndex.toNat < (node.seeLeader term leader).log.length := by rw [log]; exact inside
    obtain ⟨long, kept, -⟩ := @placeEntries_shape _ args.entries _ short
    rw [← acceptEntries_log accepted, log] at kept
    rw [← acceptEntries_log accepted] at long
    have led : later.leaderId = leader := by
      rcases acceptEntries_cases accepted with rfl | ⟨lastApplied, commits, -, rfl, -⟩
      · exact congrArg RaftNode.leaderId (seeLeader_eq leader fresh)
      · exact congrArg RaftNode.leaderId (seeLeader_eq leader fresh)
    have still : later.logAt args.prevLogIndex = some prev := by
      rw [logAt, if_pos low, ← getElem?_take_succ, kept, getElem?_take_succ]
      exact (logAt_some found).2
    rw [seeLeader_eq leader fresh] at follows level
    have again := acceptEntries_again low (by omega) accepted
    unfold handleAppendEntries
    rw [if_pos (show term ≥ later.currentTerm from level.le), if_pos (by omega), still]
    simp only [matching, ↓reduceIte, seeLeader_self level follows led, again]

structure Untouched (node later : RaftNode) : Prop where
  log : later.log = node.log
  lastApplied : later.lastApplied = node.lastApplied
  commits : later.commits = node.commits

theorem untouched_seeLeader (node : RaftNode) (term leader : Int) : node.Untouched (node.seeLeader term leader) := by
  obtain ⟨log, -, lastApplied, commits, -⟩ := seeLeader_fields node term leader
  exact ⟨log, lastApplied, commits⟩

theorem handleAppendEntries_untouched (ran : node.handleAppendEntries term leader args = some (later, reply))
    (placed : node.currentTerm ≤ term → InPlace node.log args.prevLogIndex.toNat args.entries)
    (applied : min args.leaderCommit (args.prevLogIndex + args.entries.length) ≤ node.lastApplied) :
    node.Untouched later := by
  rcases handleAppendEntries_cases ran with ⟨-, rfl, -⟩ | ⟨-, rfl, -⟩ | ⟨fresh, -, -, accepted⟩
  · exact ⟨rfl, rfl, rfl⟩
  · exact untouched_seeLeader node term leader
  · obtain ⟨log, lastApplied, commits⟩ := untouched_seeLeader node term leader
    rw [acceptEntries_covered (by rw [log]; exact placed fresh) (by rw [lastApplied]; exact fun _ => applied)] at accepted
    obtain rfl := Option.some.inj accepted
    split_ifs
    · exact ⟨log, lastApplied, commits⟩
    · exact ⟨log, lastApplied, commits⟩

end RaftNode

theorem inPlace_stretch {log pre entries : List LogEntry} {prev : LogEntry} (front : pre ++ prev :: entries <+: log) :
    InPlace log pre.length entries := by
  intro offset entry inEntries
  refine ⟨entry, getElem?_mono front ?_, rfl⟩
  have index : pre.length + 1 + offset - pre.length = offset + 1 := by omega
  rw [List.getElem?_append_right (by omega), index, List.getElem?_cons_succ]
  exact inEntries

/-- The node is in `term` or past it, has this much of the term's log while it is there, and
has applied up to `limit`. -/
structure Keeps (front : List LogEntry) (term limit : Int) (node : RaftNode) : Prop where
  reached : term ≤ node.currentTerm
  holds : node.currentTerm = term → front <+: node.log
  applied : limit ≤ node.lastApplied

section Runs

variable {past older : List Cluster} {cluster later earlier : Cluster} {action : Action} {id term limit : Int}
  {front : List LogEntry}

theorem members_same (run : Cluster.Reaches past cluster) (seen : earlier ∈ cluster :: past) :
    earlier.members = cluster.members := by
  rcases List.mem_cons.mp seen with same | inPast
  · rw [same]
  · exact (membership (Cluster.Reaches.loosely run)).constant earlier inPast

theorem lastApplied_mono (before : Cluster.Reaches past cluster) (step : Cluster.Step cluster action later)
    (member : id ∈ cluster.members) : (cluster.node id).lastApplied ≤ (later.node id).lastApplied := by
  rcases Cluster.step_act step id with same | ⟨moved, acted⟩
  · rw [same]
  · obtain ⟨-, all, -⟩ := RaftNode.act_sound (node_sound before member) acted
    rw [all]
    exact le_max_left _ _

theorem keeps_step (before : Cluster.Reaches past cluster) (step : Cluster.Step cluster action later)
    (member : id ∈ cluster.members) (listed : front <+: termLog (cluster :: past) term)
    (known : Keeps front term limit (cluster.node id)) : Keeps front term limit (later.node id) := by
  have move := ((Cluster.step_effect step).move id).log
  have grows := move.term_le
  obtain ⟨reached, holds, applied⟩ := known
  refine ⟨reached.trans grows, fun level => ?_, applied.trans (lastApplied_mono before step member)⟩
  have held := holds (by omega)
  cases move with
  | keep log =>
    rw [log]
    exact held
  | elect log =>
    rw [log]
    exact held
  | extend command leads after_leads same log =>
    rw [log]
    exact held.trans (List.prefix_append _ _)
  | repair inFlight same follows matching log =>
    obtain ⟨n, -, -, repaired⟩ := (logInv before).repaired member inFlight matching log
    rw [level] at repaired
    exact repair_keeps repaired held listed (List.take_prefix _ _)

theorem keeps_onward (run : Cluster.Reaches past cluster) (within : earlier :: older <:+ cluster :: past)
    (member : id ∈ earlier.members) (listed : front <+: termLog (earlier :: older) term)
    (known : Keeps front term limit (earlier.node id)) : Keeps front term limit (cluster.node id) := by
  have kept := @Run.onward _ _ _ _ (fun past state => id ∈ state.members ∧ front <+: termLog (state :: past) term ∧
    Keeps front term limit (state.node id)) earlier older ⟨member, listed, known⟩ ?_ _ _ run within
  · exact kept.2.2
  · rintro past cluster action later before ⟨member, listed, known⟩ step
    exact ⟨(Cluster.step_effect step).members ▸ member, listed.trans (termLog_grows before step term),
      keeps_step before step member listed known⟩

theorem tenure (run : Cluster.Reaches past cluster) (within : earlier :: older <:+ cluster :: past)
    (led : (earlier.node id).state = .leader) (leads : (cluster.node id).state = .leader)
    (level : (earlier.node id).currentTerm = (cluster.node id).currentTerm) :
    (earlier.node id).commitIndex ≤ (cluster.node id).commitIndex := by
  have kept := @Run.onward _ _ _ _ (fun _ state => (earlier.node id).currentTerm < (state.node id).currentTerm ∨
    (earlier.node id).currentTerm = (state.node id).currentTerm ∧ ((state.node id).state = .follower ∨
      (state.node id).state = .leader ∧ (earlier.node id).commitIndex ≤ (state.node id).commitIndex))
    earlier older (.inr ⟨rfl, .inr ⟨led, Int.le_refl _⟩⟩) ?_ _ _ run within
  · rcases kept with passed | ⟨-, follows | ⟨-, raised⟩⟩
    · omega
    · cases follows.symm.trans leads
    · exact raised
  · intro past cluster action later before known step
    have move := (Cluster.step_effect step).move id
    have grows := move.ballot.term_le
    rcases known with passed | ⟨current, stands⟩
    · exact .inl (by omega)
    · cases move.ballot with
      | follow follows terms keeps =>
        by_cases same : (later.node id).currentTerm = (cluster.node id).currentTerm
        · exact .inr ⟨by omega, .inl follows⟩
        · exact .inl (by omega)
      | hold state term vote votes =>
        refine .inr ⟨by omega, ?_⟩
        rw [state]
        rcases stands with follows | ⟨leads, raised⟩
        · exact .inl follows
        · rcases move.commitIndex_cases with more | ⟨follows, -⟩
          · exact .inr ⟨leads, raised.trans more⟩
          · cases (state.symm.trans follows).symm.trans leads
      | campaign term vote votes outcome => exact .inl (by omega)
      | count campaigning term vote votes outcome =>
        rcases stands with follows | ⟨leads, -⟩
        · cases follows.symm.trans campaigning
        · cases leads.symm.trans campaigning

/-- `target` takes a request of the leader of `built`, and is in `after` what this makes of it. -/
def Accepts (built before after : Cluster) (leader target : Int) (args : AppendEntriesArgs) : Prop :=
  ∃ reply, (before.node target).handleAppendEntries (built.node leader).currentTerm (built.node leader).nodeId args =
    some (after.node target, reply) ∧ reply.payload = yes

/-- Who accepts a request of a leader keeps the leader's whole log of then while its term lasts. -/
theorem accepts_keeps {before after built : Cluster} (run : Cluster.Reaches (before :: older) after)
    (known : Cluster.Reaches older before) {builtOlder : List Cluster} (within : built :: builtOlder <:+ before :: older)
    {leader peer target : Int} {args : AppendEntriesArgs} (builds : Builds built leader peer args)
    (member : target ∈ before.members) (inAfter : target ∈ after.members) (accepts : Accepts built before after leader target args) :
    Keeps (built.node leader).log (built.node leader).currentTerm
      (min args.leaderCommit (args.prevLogIndex + args.entries.length)) (after.node target) := by
  obtain ⟨reply, ran, success⟩ := accepts
  obtain ⟨-, pre, prev, whole, index, same⟩ := heartbeatFor_served builds.request
  have listed := termLog_earlier known within (built.node leader).currentTerm
  rw [termLog_leader (known.earlier within) builds.member builds.leads] at listed
  have refused : ∀ other : RaftNode, (other.appendEntriesReply false).payload ≠ yes := fun _ => by
    change no ≠ yes
    decide
  rcases RaftNode.handleAppendEntries_cases ran with ⟨-, -, rfl⟩ | ⟨-, -, rfl⟩ | ⟨fresh, -, matching, accepted⟩
  · exact absurd success (refused _)
  · exact absurd success (refused _)
  · obtain ⟨log, -⟩ := RaftNode.seeLeader_fields (before.node target) (built.node leader).currentTerm (built.node leader).nodeId
    obtain ⟨-, -, term, -⟩ := RaftNode.acceptEntries_ballot accepted
    rw [RaftNode.seeLeader_eq _ fresh] at term
    have shape := RaftNode.acceptEntries_log accepted
    rw [log] at shape
    have front := accepted_front known member (whole ▸ listed) index same matching shape
    rw [whole] at front
    exact ⟨term.ge, fun _ => front, (RaftNode.acceptEntries_commit accepted).trans (node_sound run inAfter).applied⟩

/-- Handling a request twice is handling it once. A request that a later one of the same leader
and term has overtaken at a node changes neither the log there nor what is applied. -/
theorem redelivery_harmless :
    (∀ (node : RaftNode) (term leader : Int) (args : AppendEntriesArgs), 0 ≤ args.prevLogIndex →
      ((node.handleAppendEntries term leader args).bind fun once => once.1.handleAppendEntries term leader args) =
        node.handleAppendEntries term leader args) ∧
    ∀ (past : List Cluster) (cluster : Cluster), Cluster.Reaches past cluster →
      ∀ (older : List Cluster) (before after : Cluster), after :: before :: older <:+ cluster :: past →
      ∀ (lateOlder : List Cluster) (late : Cluster), late :: lateOlder <:+ before :: older →
      ∀ early ∈ late :: lateOlder, ∀ leader first second target earlyArgs lateArgs,
        Builds early leader first earlyArgs → Builds late leader second lateArgs →
        (early.node leader).currentTerm = (late.node leader).currentTerm → target ∈ cluster.members →
        Accepts late before after leader target lateArgs →
        ∃ later reply, (cluster.node target).handleAppendEntries (early.node leader).currentTerm
            (early.node leader).nodeId earlyArgs = some (later, reply) ∧
          (cluster.node target).Untouched later := by
  refine ⟨fun node term leader args low => ?_, ?_⟩
  · cases ran : node.handleAppendEntries term leader args with
    | none => rfl
    | some once => exact RaftNode.handleAppendEntries_again low ran
  · intro past cluster run older before after within lateOlder late lateWithin early seen leader first second target
      earlyArgs lateArgs earlyBuilds lateBuilds level member accepts
    have runAfter := run.earlier within
    have runBefore := runAfter.earlier (List.suffix_cons _ _)
    have runLate := runBefore.earlier lateWithin
    obtain ⟨earlyOlder, runEarly, earlyWithin⟩ := runLate.visited seen
    have inAfter : target ∈ after.members := members_same run (within.subset List.mem_cons_self) ▸ member
    have inBefore : target ∈ before.members :=
      members_same run (within.subset (List.mem_cons_of_mem _ List.mem_cons_self)) ▸ member
    obtain ⟨lateCommit, latePre, latePrev, lateWhole, lateIndex, -⟩ := heartbeatFor_served lateBuilds.request
    obtain ⟨earlyCommit, earlyPre, earlyPrev, earlyWhole, earlyIndex, -⟩ := heartbeatFor_served earlyBuilds.request
    -- the log and the commit index of the leader have only grown between the two
    have grown := termLog_earlier runLate earlyWithin (early.node leader).currentTerm
    rw [termLog_leader runEarly earlyBuilds.member earlyBuilds.leads, level,
      termLog_leader runLate lateBuilds.member lateBuilds.leads] at grown
    have raised := tenure runLate earlyWithin earlyBuilds.leads lateBuilds.leads level
    have earlyLength := congrArg List.length earlyWhole
    have lateLength := congrArg List.length lateWhole
    rw [List.length_append, List.length_cons] at earlyLength lateLength
    have longer := grown.length_le
    have listed := termLog_earlier runAfter (lateWithin.trans (List.suffix_cons _ _)) (late.node leader).currentTerm
    rw [termLog_leader runLate lateBuilds.member lateBuilds.leads] at listed
    obtain ⟨reached, holds, applied⟩ := keeps_onward run within inAfter listed
      (accepts_keeps runAfter runBefore lateWithin lateBuilds inBefore inAfter accepts)
    obtain ⟨later, reply, ran, -⟩ := @RaftNode.handleAppendEntries_sound (cluster.node target) (node_sound run member)
      (early.node leader).currentTerm (early.node leader).nodeId earlyArgs fun _ => by omega
    refine ⟨later, reply, ran, RaftNode.handleAppendEntries_untouched ran (fun fresh => ?_) (by omega)⟩
    have front := grown.trans (holds (by omega))
    rw [← earlyWhole] at front
    rw [earlyIndex, Int.toNat_natCast]
    exact inPlace_stretch front

end Runs

theorem deliver_append {cluster : Cluster} {position : Nat} {target term leader : Int} {args : AppendEntriesArgs}
    {node : RaftNode} {reply : RpcMessage} (found : cluster.net[position]? = some (.appendRequest target term leader args))
    (member : target ∈ cluster.members) (ran : (cluster.node target).handleAppendEntries term leader args = some (node, reply)) :
    ∃ later, Cluster.Step cluster (.deliver position) later ∧ later.members = cluster.members ∧ later.node target = node := by
  refine ⟨((cluster.unwire position).set target node).send
    [.appendReply leader target (args.prevLogIndex + args.entries.length) reply], ?_, rfl, Cluster.set_same ..⟩
  have received : (cluster.unwire position).receive (.appendRequest target term leader args) =
      some (((cluster.unwire position).set target node).send
        [.appendReply leader target (args.prevLogIndex + args.entries.length) reply]) :=
    (if_pos member).trans (Option.bind_eq_some_iff.mpr ⟨_, ran, rfl⟩)
  exact Option.bind_eq_some_iff.mpr ⟨_, found, received⟩

theorem redelivery_harmless_trio : ∃ past cluster early args later reply, Cluster.Reaches past cluster ∧
    early ∈ past ∧ Builds early 1 2 args ∧ (early.node 1).log.length = 2 ∧ (cluster.node 2).log.length = 3 ∧
    (cluster.node 2).handleAppendEntries (early.node 1).currentTerm (early.node 1).nodeId args = some (later, reply) ∧
      (cluster.node 2).Untouched later := by
  have sent : ∃ visited ∈ replay (Cluster.actWhen Cluster.NoDuplicate) Cluster.trio
      [.start 1, .start 2, .start 3, .startElection 1, .deliver 0, .deliver 1, .propose 1 [0x61],
        .sendHeartbeats 1, .propose 1 [0x62], .sendHeartbeats 1],
      2 ∈ visited.2.members ∧ visited.2.net[3]? = some (.appendRequest 2 1 1 ⟨0, 0, 0, [⟨1, 1, [0x61]⟩, ⟨1, 2, [0x62]⟩]⟩) ∧
        (∃ answer ∈ (visited.2.node 2).handleAppendEntries 1 1 ⟨0, 0, 0, [⟨1, 1, [0x61]⟩, ⟨1, 2, [0x62]⟩]⟩,
          answer.1.log.length = 3 ∧ answer.2.payload = yes) ∧
        (∃ late ∈ visited.1.head?, 1 ∈ late.members ∧ (late.node 1).running = true ∧ (late.node 1).state = .leader ∧
          2 ∈ (late.node 1).peers ∧ (late.node 1).currentTerm = 1 ∧ (late.node 1).nodeId = 1 ∧
          (late.node 1).heartbeatFor 2 = some (2, ⟨0, 0, 0, [⟨1, 1, [0x61]⟩, ⟨1, 2, [0x62]⟩]⟩)) ∧
        ∃ early ∈ visited.1, 1 ∈ early.members ∧ (early.node 1).running = true ∧ (early.node 1).state = .leader ∧
          2 ∈ (early.node 1).peers ∧ (early.node 1).currentTerm = 1 ∧ (early.node 1).log.length = 2 ∧
          (early.node 1).heartbeatFor 2 = some (2, ⟨0, 0, 0, [⟨1, 1, [0x61]⟩]⟩) := by
    decide +kernel
  obtain ⟨visited, played, target, found, ⟨⟨node, answer⟩, ran, length, success⟩, ⟨late, first, lateMember, lateRuns,
    lateLeads, lateListed, lateTerm, lateId, lateBuilt⟩, early, seen, earlyMember, earlyRuns, earlyLeads, earlyListed,
    earlyTerm, earlyLength, earlyBuilt⟩ := sent
  have run := Cluster.ReachesWhen.reaches (Cluster.trio_replay played)
  obtain ⟨cluster, step, members, placed⟩ := deliver_append found target ran
  have shape : visited.1 = late :: visited.1.tail := (List.cons_head?_tail first).symm
  have earlyBuilds : Builds early 1 2 _ := ⟨earlyMember, earlyRuns, earlyLeads, earlyListed, earlyBuilt⟩
  have lateBuilds : Builds late 1 2 _ := ⟨lateMember, lateRuns, lateLeads, lateListed, lateBuilt⟩
  obtain ⟨later, reply, handled, untouched⟩ := redelivery_harmless.2 (visited.2 :: visited.1) cluster (.next run step)
    visited.1 visited.2 cluster (List.suffix_refl _) visited.1.tail late (by rw [← shape]; exact List.suffix_cons _ _)
    early (by rw [← shape]; exact seen) 1 2 2 2 _ _ earlyBuilds lateBuilds (earlyTerm.trans lateTerm.symm)
    (by rw [members]; exact target) ⟨answer, by rw [lateTerm, lateId, placed]; exact ran, success⟩
  exact ⟨_, cluster, early, _, later, reply, .next run step, List.mem_cons_of_mem _ seen, earlyBuilds, earlyLength,
    by rw [placed]; exact length, handled, untouched⟩

end QuorumDB.Raft
