import QuorumDB.Raft.ProcessStop

/-!
The timers of a node. Its loop sleeps neither past a heartbeat nor long past the end of an election
timeout, whatever happens to the node meanwhile; and it starts an election only after a silence.
-/

namespace QuorumDB.Raft
open Execution Rpc

theorem RaftNode.act_leads {node later : RaftNode} {action : NodeAction} (acted : node.act action = some later)
    (leads : node.state = .leader) (quiet : node.resets action = false) : later.state = .leader := by
  cases action with
  | start =>
    obtain rfl := Option.some.inj acted
    unfold start
    rw [if_pos (by simpa [resets] using quiet)]
    exact leads
  | stop | setOnCommitCallback set =>
    obtain rfl := Option.some.inj acted
    exact leads
  | startElection =>
    have unchanged : node.startElection = some (node, []) := if_pos (.inr leads)
    obtain ⟨⟨after, requests⟩, ran, rfl⟩ := Option.map_eq_some_iff.mp acted
    obtain ⟨rfl, -⟩ := Prod.mk.inj (Option.some.inj (unchanged.symm.trans ran))
    exact leads
  | propose command =>
    obtain rfl := Option.some.inj acted
    unfold propose
    rw [if_neg (not_not.mpr leads)]
    exact leads
  | sendHeartbeats =>
    obtain ⟨requests, -, rfl⟩ := Option.map_eq_some_iff.mp acted
    exact leads
  | requestVote term candidate =>
    obtain rfl := Option.some.inj acted
    have stale : ¬ term ≥ node.currentTerm := of_decide_eq_false quiet
    unfold handleRequestVote
    rw [if_neg stale]
    exact leads
  | appendEntries term leader args =>
    have stale : ¬ term ≥ node.currentTerm := of_decide_eq_false quiet
    have unchanged : node.handleAppendEntries term leader args = some (node, node.appendEntriesReply false) := if_neg stale
    obtain ⟨⟨after, reply⟩, ran, rfl⟩ := Option.map_eq_some_iff.mp acted
    obtain ⟨rfl, -⟩ := Prod.mk.inj (Option.some.inj (unchanged.symm.trans ran))
    exact leads
  | voteReply electionTerm peer reply =>
    obtain rfl := Option.some.inj acted
    unfold handleVoteReply
    split_ifs with rests above stale
    · exact leads
    · simp [resets, rests, above] at quiet
    · exact leads
    · exact absurd (.inl (by rw [leads]; decide)) stale
    · exact absurd (.inl (by rw [leads]; decide)) stale
  | appendReply peer sent reply =>
    by_cases rests : node.running = true
    · have stale : ¬ node.currentTerm < reply.term := by simpa [resets, rests, leads] using quiet
      rcases handleAppendEntriesReply_cases acted with rfl | ⟨above, -⟩ | ⟨-, -, rfl | ⟨-, -, -, advanced⟩⟩
      · exact leads
      · exact absurd above stale
      · exact leads
      · obtain ⟨commitIndex, lastApplied, commits, rfl⟩ := commitScan_frame advanced
        exact leads
    · have unchanged : node.handleAppendEntriesReply peer reply sent = some node := if_pos (.inl (Bool.not_eq_true _ ▸ rests))
      obtain rfl := Option.some.inj (unchanged.symm.trans acted)
      exact leads

theorem notify_electing {loop : Option LoopStage} (after : loop.map LoopStage.notify = some .electing) : loop = some .electing := by
  obtain ⟨stage, rfl, notified⟩ := Option.map_eq_some_iff.mp after
  cases stage with
  | electing => rfl
  | _ => cases notified

namespace Process

/-- What the clock says of the timers, and of a loop that nobody has notified. -/
structure Timed (process : Process) : Prop where
  reset : process.lastReset ≤ process.clock
  drawn : process.node.running = true →
    process.lastReset + 150 ≤ process.electionDeadline ∧ process.electionDeadline ≤ process.lastReset + 300
  beats : process.nextHeartbeat ≤ process.clock + kHeartbeatInterval
  soon : ∀ wake notified, process.loop = some (.waiting wake notified) → wake ≤ process.clock + 300
  leads : ∀ wake, process.loop = some (.waiting wake false) → process.node.running = true → process.node.state = .leader →
    wake ≤ process.nextHeartbeat
  follows : ∀ wake, process.loop = some (.waiting wake false) → process.node.running = true → process.node.state ≠ .leader →
    wake ≤ process.electionDeadline + 150

variable {process later : Process} {step : ProcessStep} {past : List Process}

theorem Timed.frame (known : process.Timed) (clock : process.clock ≤ later.clock) (lastReset : later.lastReset = process.lastReset)
    (electionDeadline : later.electionDeadline = process.electionDeadline) (nextHeartbeat : later.nextHeartbeat = process.nextHeartbeat)
    (running : later.node.running = process.node.running) (state : later.node.state = process.node.state)
    (loop : ∀ wake notified, later.loop = some (.waiting wake notified) → process.loop = some (.waiting wake notified)) :
    later.Timed := by
  constructor
  · rw [lastReset]
    exact known.reset.trans clock
  · rw [running, lastReset, electionDeadline]
    exact known.drawn
  · rw [nextHeartbeat]
    exact known.beats.trans (Int.add_le_add_right clock _)
  · intro wake notified waits
    exact (known.soon wake notified (loop wake notified waits)).trans (Int.add_le_add_right clock _)
  · rw [running, state, nextHeartbeat]
    exact fun wake waits => known.leads wake (loop wake false waits)
  · rw [running, state, electionDeadline]
    exact fun wake waits => known.follows wake (loop wake false waits)

theorem Timed.replaceNode (known : process.Timed) {action : NodeAction} {timeout : Int} {node : RaftNode}
    (drawn : 150 ≤ timeout ∧ timeout ≤ 300) (acted : process.node.act action = some node)
    (runs : node.running = true → process.node.running = true ∨ process.node.resets action = true ∧ process.loop = none) :
    (process.replaceNode action timeout node).Timed := by
  have reset := known.reset
  have loops := process.replaceNode_loop action timeout node
  -- an unnotified loop is one that nobody has notified now, either
  have asleep : ∀ wake, (process.replaceNode action timeout node).loop = some (.waiting wake false) →
      process.loop = some (.waiting wake false) ∧ (node.state = .leader → process.node.state = .leader) := by
    intro wake waits
    unfold Process.replaceNode at waits
    simp only at waits
    split_ifs at waits with leads
    · obtain ⟨stage, -, notified⟩ := Option.map_eq_some_iff.mp waits
      cases stage <;> cases notified
    · exact ⟨waits, fun now => not_not.mp fun before => leads ⟨before, now⟩⟩
  have awake : ∀ wake, (process.replaceNode action timeout node).loop = some (.waiting wake false) → node.running = true →
      process.node.running = true := by
    intro wake waits running
    rcases runs running with before | ⟨-, none⟩
    · exact before
    · cases none.symm.trans (asleep wake waits).1
  constructor
  · change (if process.node.resets action then process.clock else process.lastReset) ≤ process.clock
    split_ifs <;> omega
  · intro running
    change (if process.node.resets action then process.clock else process.lastReset) + 150 ≤
        (if process.node.resets action then process.clock + timeout else process.electionDeadline) ∧
      (if process.node.resets action then process.clock + timeout else process.electionDeadline) ≤
        (if process.node.resets action then process.clock else process.lastReset) + 300
    by_cases resets : process.node.resets action = true
    · simp only [if_pos resets]
      omega
    · simp only [if_neg resets]
      exact known.drawn ((runs running).resolve_right fun other => resets other.1)
  · change (if process.node.state ≠ .leader ∧ node.state = .leader then process.clock else process.nextHeartbeat) ≤ process.clock + 75
    have beats : process.nextHeartbeat ≤ process.clock + 75 := known.beats
    split_ifs <;> omega
  · intro wake notified waits
    rcases loops with same | mapped
    · exact known.soon wake notified (same.symm.trans waits)
    · obtain ⟨stage, before, after⟩ := Option.map_eq_some_iff.mp (mapped.symm.trans waits)
      cases stage <;> cases after
      exact known.soon wake _ before
  · intro wake waits running leads
    obtain ⟨before, led⟩ := asleep wake waits
    change wake ≤ if process.node.state ≠ .leader ∧ node.state = .leader then process.clock else process.nextHeartbeat
    rw [if_neg fun other => other.1 (led leads)]
    exact known.leads wake before (awake wake waits running) (led leads)
  · intro wake waits running follows
    obtain ⟨before, -⟩ := asleep wake waits
    change wake ≤ (if process.node.resets action then process.clock + timeout else process.electionDeadline) + 150
    by_cases resets : process.node.resets action = true
    · rw [if_pos resets]
      have soon := known.soon wake false before
      omega
    · rw [if_neg resets]
      refine known.follows wake before (awake wake waits running) fun led => ?_
      exact follows (RaftNode.act_leads acted led (Bool.not_eq_true _ ▸ resets))

theorem Timed.turn (known : process.Timed) (sound : process.Sound) (turn : Turn process step later) : later.Timed := by
  cases turn with
  | @pass time => exact known.frame (Int.le_add_of_nonneg_right (Int.natCast_nonneg time)) rfl rfl rfl rfl rfl fun _ _ => id
  | started | stopped => exact known
  | @start fd timeout server node idle rests begun drawn acted =>
    have free : process.loop = none := sound.unlooped idle rests
    have resets : process.node.resets .start = true := by
      unfold RaftNode.resets
      rw [rests]
      rfl
    have after := known.replaceNode drawn acted fun _ => .inr ⟨resets, free⟩
    exact after.frame (le_refl _) rfl rfl rfl rfl rfl fun _ _ => id
  | stop idle busy =>
    refine ⟨known.reset, nofun, known.beats, fun wake notified waits => ?_, fun wake waits => nofun, fun wake waits => nofun⟩
    obtain ⟨stage, before, after⟩ := Option.map_eq_some_iff.mp waits
    cases stage <;> cases after
    exact known.soon wake _ before
  | @request serial action timeout node kind serves first drawn acted =>
    have running := (RaftNode.act_fixed acted (NodeAction.inner (.inl kind))).1
    have after := known.replaceNode drawn acted fun runs => .inl (running.symm.trans runs)
    exact after.frame (le_refl _) rfl rfl rfl rfl rfl fun _ _ => id
  | @direct action node kind acted =>
    have running := (RaftNode.act_fixed acted (NodeAction.inner (.inr (.inr kind)))).1
    have state : node.state = process.node.state := by
      cases RaftNode.act_turn acted with
      | same | setOnCommitCallback | propose => rfl
      | stepDown carried =>
        cases action with
        | propose | setOnCommitCallback => cases carried
        | _ => cases kind
      | _ => cases kind
    exact known.frame (le_refl _) rfl rfl rfl running state fun _ _ => id
  | @reply call action timeout node kind calls drawn acted =>
    have running := (RaftNode.act_fixed acted (NodeAction.inner (.inr (.inl kind)))).1
    have after := known.replaceNode drawn acted fun runs => .inl (running.symm.trans runs)
    exact after.frame (le_refl _) rfl rfl rfl rfl rfl fun _ _ => id
  | sleep loops runs =>
    have reset := known.reset
    have beats : process.nextHeartbeat ≤ process.clock + 75 := known.beats
    have drawn := known.drawn runs
    refine ⟨reset, known.drawn, known.beats, fun wake notified waits => ?_, fun wake waits _ leads => ?_, fun wake waits _ follows => ?_⟩
    · obtain ⟨rfl, -⟩ := LoopStage.waiting.inj (Option.some.inj waits)
      change _ ≤ process.clock + 300
      split_ifs <;> omega
    · obtain ⟨rfl, -⟩ := LoopStage.waiting.inj (Option.some.inj waits)
      rw [if_pos (show process.node.state = .leader from leads)]
      exact le_refl _
    · obtain ⟨rfl, -⟩ := LoopStage.waiting.inj (Option.some.inj waits)
      rw [if_neg (show ¬ process.node.state = .leader from follows)]
      change process.electionDeadline ≤ process.electionDeadline + 150
      omega
  | @elect timeout node loops drawn acted =>
    have running := (RaftNode.act_fixed acted NodeAction.startElection_inner).1
    have after := known.replaceNode drawn acted fun runs => .inl (running.symm.trans runs)
    refine after.frame (le_refl _) rfl rfl rfl rfl rfl fun wake notified waits => ?_
    have waits := Option.some.inj waits
    unfold elected at waits
    split_ifs at waits
  | wakeBeating loops => exact ⟨known.reset, known.drawn, le_refl _, nofun, nofun, nofun⟩
  | stopServer | serverStopped | swapRpcThreads | joinedAll | joinRpcThread | server | advance =>
    exact known.frame (le_refl _) rfl rfl rfl rfl rfl fun _ _ => id
  | launch | joinLoop | leave | wakeElecting | wakeEarly | reapedAll | reap | skip | spawnedAll | spawn =>
    exact known.frame (le_refl _) rfl rfl rfl rfl rfl nofun
  | beat loops goes =>
    refine known.frame (le_refl _) rfl rfl rfl rfl rfl fun wake notified waits => ?_
    rcases goes with rfl | ⟨rfl, -⟩
    · cases waits
    · cases waits
  | enter =>
    refine known.frame (le_refl _) rfl rfl rfl rfl rfl fun wake notified waits => ?_
    have waits := Option.some.inj waits
    split_ifs at waits

theorem timed_initial (fresh : process.Initial) : process.Timed := by
  obtain ⟨nodeId, peers, onCommit, holder, clock, positive, -, rfl⟩ := fresh
  refine ⟨positive, nofun, ?_, nofun, nofun, nofun⟩
  change 0 ≤ clock + 75
  omega

theorem timed (run : Reaches past process) : process.Timed := by
  apply run.invariant (fun _ fresh => timed_initial fresh)
  intro past process step later before known moved
  exact known.turn (sound before) (act_turn moved)

/-- In every execution the loop of a running node that waits, and has not been notified, wakes up by the
next heartbeat where the node leads, and 150 milliseconds after the election deadline at the latest where it does not. -/
theorem wakes_in_time (run : Reaches past process) {wake : Int} (waits : process.loop = some (.waiting wake false))
    (runs : process.node.running = true) :
    (process.node.state = .leader → wake ≤ process.nextHeartbeat ∧ process.nextHeartbeat ≤ process.clock + kHeartbeatInterval) ∧
    (process.node.state ≠ .leader → wake ≤ process.electionDeadline + 150 ∧ process.electionDeadline ≤ process.clock + 300) := by
  have known := timed run
  have reset := known.reset
  have drawn := known.drawn runs
  exact ⟨fun leads => ⟨known.leads wake waits runs leads, known.beats⟩, fun follows => ⟨known.follows wake waits runs follows, by omega⟩⟩

/-- A request that is answered in the sleep of the loop brings the deadline forward, and the loop is as late
as it can be. -/
theorem wakes_in_time_late : ∃ past process, Reaches past process ∧ process.loop = some (.waiting 300 false) ∧
    process.electionDeadline = 150 ∧ (process.node.state ≠ .leader → (300 : Int) ≤ process.electionDeadline + 150 ∧
      process.electionDeadline ≤ process.clock + 300) := by
  have late : ∃ visited ∈ replay act fresh [.start 4 300, .launch, .check, .server .poll, .server (.accept 5), .server .register,
        .server .spawn, .request 0 (.requestVote 2 2) 150],
      visited.2.loop = some (.waiting 300 false) ∧ visited.2.electionDeadline = 150 ∧ visited.2.node.running = true := by
    decide +kernel
  obtain ⟨visited, played, waits, deadline, runs⟩ := late
  have run := fresh_reaches played
  exact ⟨_, _, run, waits, deadline, (wakes_in_time run waits runs).2⟩

theorem Turn.elects (turn : Turn process step later) (elects : later.loop = some .electing) :
    process.loop = some .electing ∨
    process.node.running = true ∧ process.node.state ≠ .leader ∧ process.electionDeadline ≤ process.clock := by
  have woken : ∀ action timeout node, (process.replaceNode action timeout node).loop = some .electing → process.loop = some .electing := by
    intro action timeout node after
    rcases process.replaceNode_loop action timeout node with same | notified
    · exact same.symm.trans after
    · exact notify_electing (notified.symm.trans after)
  cases turn with
  | wakeElecting loops runs follows due => exact .inr ⟨runs, follows, due⟩
  | @start fd timeout server node => exact .inl (woken .start timeout node elects)
  | @request serial action timeout node => exact .inl (woken action timeout node elects)
  | @reply call action timeout node => exact .inl (woken action timeout node elects)
  | stop => exact .inl (notify_electing elects)
  | elect =>
    have elects := Option.some.inj elects
    unfold elected at elects
    split_ifs at elects
  | beat loops goes =>
    rcases goes with rfl | ⟨rfl, -⟩
    · cases elects
    · cases elects
  | enter =>
    have elects := Option.some.inj elects
    split_ifs at elects
  | launch | joinLoop | leave | sleep | wakeBeating | wakeEarly | reapedAll | reap | skip | spawnedAll | spawn => cases elects
  | _ => exact .inl elects

theorem Turn.reset_le (turn : Turn process step later) (known : process.Timed) : process.lastReset ≤ later.lastReset := by
  have grows : ∀ action timeout node, process.lastReset ≤ (process.replaceNode action timeout node).lastReset := by
    intro action timeout node
    have reset := known.reset
    change _ ≤ if process.node.resets action then process.clock else process.lastReset
    split_ifs <;> omega
  cases turn with
  | @start fd timeout server node => exact grows .start timeout node
  | @request serial action timeout node => exact grows action timeout node
  | @reply call action timeout node => exact grows action timeout node
  | @elect timeout node => exact grows .startElection timeout node
  | _ => exact le_refl _

theorem reset_le_later (run : Reaches past process) {earlier : Process} {older : List Process}
    (within : earlier :: older <:+ process :: past) : earlier.lastReset ≤ process.lastReset := by
  refine @Run.onward _ _ _ _ (fun _ state => earlier.lastReset ≤ state.lastReset) earlier older (le_refl _) ?_ _ _ run within
  intro past state step later before grown moved
  exact grown.trans ((act_turn moved).reset_le (timed before))

theorem request_resets {serial : Nat} {action : NodeAction} {timeout term : Int} (heard : action.term = some term)
    (fresh : process.node.currentTerm ≤ term) (moved : process.act (.request serial action timeout) = some later) :
    later.lastReset = process.clock := by
  obtain ⟨⟨kind, -⟩, moved⟩ := Cluster.guarded moved
  simp only [Option.bind_eq_bind, Option.bind_eq_some_iff, Option.some.injEq] at moved
  obtain ⟨middle, performed, rfl⟩ := moved
  obtain ⟨node, -, -, rfl⟩ := perform_eq performed
  have resets : process.node.resets action = true := by
    cases action with
    | requestVote | appendEntries =>
      obtain rfl := Option.some.inj heard
      exact decide_eq_true fresh
    | _ => cases kind
  exact if_pos resets

/-- The loop that starts an election has woken up, at some time before, in a node that did not lead, after the
deadline. -/
theorem woke_late (run : Reaches past process) (elects : process.loop = some .electing) :
    ∃ between before older, past = between ++ before :: older ∧ (∀ passed ∈ between, passed.loop = some .electing) ∧
      before.node.running = true ∧ before.node.state ≠ .leader ∧ before.electionDeadline ≤ before.clock := by
  refine @Run.invariant _ _ _ _ (fun past process => process.loop = some .electing → ∃ between before older,
    past = between ++ before :: older ∧ (∀ passed ∈ between, passed.loop = some .electing) ∧
      before.node.running = true ∧ before.node.state ≠ .leader ∧ before.electionDeadline ≤ before.clock) ?_ ?_ _ _ run elects
  · rintro state ⟨nodeId, peers, onCommit, holder, clock, -, -, rfl⟩ elects
    cases elects
  · intro past state step later before known moved elects
    rcases (act_turn moved).elects elects with still | woken
    · obtain ⟨between, waking, older, rfl, all, late⟩ := known still
      exact ⟨state :: between, waking, older, rfl, List.forall_mem_cons.mpr ⟨still, all⟩, late⟩
    · exact ⟨[], state, past, rfl, List.forall_mem_nil _, woken⟩

/-- In every execution a loop that starts an election woke up in a node that did not lead, at least 150
milliseconds after it had last been asked for its vote, or sent entries, in its term or a later one. -/
theorem elects_after_silence (run : Reaches past process) (elects : process.loop = some .electing) :
    ∃ between before older, past = between ++ before :: older ∧ (∀ passed ∈ between, passed.loop = some .electing) ∧
      before.node.running = true ∧ before.node.state ≠ .leader ∧
      ∀ next heard rest, next :: heard :: rest <:+ before :: older → ∀ serial action timeout term, action.term = some term →
        heard.node.currentTerm ≤ term → heard.act (.request serial action timeout) = some next → heard.clock + 150 ≤ before.clock := by
  obtain ⟨between, before, older, rfl, all, runs, follows, late⟩ := woke_late run elects
  refine ⟨between, before, older, rfl, all, runs, follows, fun next heard rest within serial action timeout term carried fresh moved => ?_⟩
  have reached : Reaches older before := run.earlier ((List.suffix_append between _).trans (List.suffix_cons _ _))
  have drawn := (timed reached).drawn runs
  calc heard.clock + 150
      = next.lastReset + 150 := by rw [request_resets carried fresh moved]
    _ ≤ before.lastReset + 150 := Int.add_le_add_right (reset_le_later reached within) 150
    _ ≤ before.electionDeadline := drawn.1
    _ ≤ before.clock := late

/-- Node 1 gives its vote to node 2, hears no more of it, and stands for election. -/
theorem elects_after_silence_voter : ∃ past process, Reaches past process ∧ process.loop = some .electing ∧
    ∃ between before older, past = between ++ before :: older ∧ (∀ passed ∈ between, passed.loop = some .electing) ∧
      before.node.running = true ∧ before.node.state ≠ .leader ∧
      ∀ next heard rest, next :: heard :: rest <:+ before :: older → ∀ serial action timeout term, action.term = some term →
        heard.node.currentTerm ≤ term → heard.act (.request serial action timeout) = some next → heard.clock + 150 ≤ before.clock := by
  have voted : ∃ visited ∈ replay act fresh [.start 4 150, .launch, .server .poll, .server (.accept 5), .server .register,
        .server .spawn, .pass 100, .request 0 (.requestVote 2 2) 200, .check, .pass 200, .wake],
      visited.2.loop = some .electing ∧ visited.2.node.votedFor = 2 := by
    decide +kernel
  obtain ⟨visited, played, elects, -⟩ := voted
  have run := fresh_reaches played
  exact ⟨_, _, run, elects, elects_after_silence run elects⟩

end Process

end QuorumDB.Raft
