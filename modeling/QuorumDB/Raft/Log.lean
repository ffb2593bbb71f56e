import QuorumDB.Lib.TermLog
import QuorumDB.Raft.Election

/-!
Log matching. `termLog` reads off an execution the log of each term's leader as it
was last seen; every log and every request in flight is a prefix of such lists, cut
by the term of its last entry.
-/

namespace QuorumDB.Raft
open Execution Quorum TermLog
open RaftNode (placeEntry placeEntries)

/-- The part of a step that decides what logs hold. -/
inductive LogMove (cluster : Cluster) (id : Int) (after : RaftNode) : Prop where
  | keep (log : after.log = (cluster.node id).log)
      (term : (cluster.node id).currentTerm ≤ after.currentTerm)
      (lead : after.state = .leader → (cluster.node id).state = .leader ∧
        after.currentTerm = (cluster.node id).currentTerm)
  | elect (log : after.log = (cluster.node id).log) (leads : after.state = .leader)
      (newly : (cluster.node id).currentTerm < after.currentTerm ∨
        (cluster.node id).state = .candidate ∧ after.currentTerm = (cluster.node id).currentTerm)
  | extend (command : Bytes) (leads : (cluster.node id).state = .leader)
      (after_leads : after.state = .leader)
      (term : after.currentTerm = (cluster.node id).currentTerm)
      (log : after.log = (cluster.node id).log ++
        [⟨(cluster.node id).currentTerm, (cluster.node id).log.length, command⟩])
  | repair {leader : Int} {args : AppendEntriesArgs}
      (inFlight : .appendRequest id after.currentTerm leader args ∈ cluster.net)
      (term : (cluster.node id).currentTerm ≤ after.currentTerm) (follows : after.state = .follower)
      (matching : ∃ prev, (cluster.node id).logAt args.prevLogIndex = some prev ∧
        prev.term = args.prevLogTerm)
      (log : after.log = placeEntries (cluster.node id).log args.prevLogIndex.toNat args.entries)

namespace RaftNode

theorem acceptEntries_log {node later : RaftNode} {args : AppendEntriesArgs}
    (ran : node.acceptEntries args = some later) :
    later.log = placeEntries node.log args.prevLogIndex.toNat args.entries := by
  obtain ⟨commitIndex, lastApplied, commits, rfl⟩ := acceptEntries_frame ran
  rfl

theorem advance_log {node later : RaftNode} (ran : node.advanceCommitIndexLocked = some later) :
    later.log = node.log := by
  obtain ⟨commitIndex, lastApplied, commits, rfl⟩ := commitScan_frame ran
  rfl

end RaftNode

theorem Cluster.Move.log {cluster : Cluster} {packet : Option Packet} {id : Int} {node : RaftNode}
    (move : cluster.Move packet id node) : LogMove cluster id node := by
  cases move with
  | same => exact .keep rfl (le_refl _) fun leads => ⟨leads, rfl⟩
  | start =>
    rcases RaftNode.start_cases (cluster.node id) with same | same <;> rw [same]
    · exact .keep rfl (le_refl _) fun leads => ⟨leads, rfl⟩
    · refine .keep rfl (le_refl _) fun leads => ?_
      cases leads
  | stop => exact .keep rfl (le_refl _) fun leads => ⟨leads, rfl⟩
  | @propose command leads =>
    simp only [RaftNode.propose, leads, ne_eq, not_true_eq_false, ↓reduceIte]
    exact .extend command leads rfl rfl rfl
  | campaign free =>
    refine .keep rfl (Int.lt_succ _).le fun leads => ?_
    cases leads
  | winAlone free majority => exact .elect rfl rfl (.inl (Int.lt_succ _))
  | vote delivers inFlight fresh free =>
    refine .keep rfl fresh fun leads => ?_
    cases leads
  | stepDown above =>
    refine .keep rfl above.le fun leads => ?_
    cases leads
  | count inFlight campaigning current granted =>
    exact .keep rfl (le_refl _) fun leads => ⟨leads, rfl⟩
  | win inFlight campaigning current granted majority =>
    exact .elect rfl rfl (.inr ⟨campaigning, rfl⟩)
  | follow inFlight fresh =>
    rw [RaftNode.seeLeader_eq _ fresh]
    refine .keep rfl fresh fun leads => ?_
    cases leads
  | @accept term leader args node inFlight fresh matching ran =>
    obtain ⟨-, state, kept, -⟩ := RaftNode.acceptEntries_ballot ran
    have log := RaftNode.acceptEntries_log ran
    rw [RaftNode.seeLeader_eq _ fresh] at state kept log
    have level : node.currentTerm = term := kept
    refine @LogMove.repair cluster id node leader args ?_ ?_ state matching log
    · rw [level]
      exact inFlight
    · rw [level]
      exact fresh
  | next leads => exact .keep rfl (le_refl _) fun leads => ⟨leads, rfl⟩
  | acknowledge delivers inFlight leads runs current typed accepted ran =>
    obtain ⟨-, state, term, -, -⟩ := RaftNode.advance_ballot ran
    have log := RaftNode.advance_log ran
    exact .keep log term.ge fun _ => ⟨leads, term⟩

theorem LogMove.term_le {cluster : Cluster} {id : Int} {after : RaftNode}
    (move : LogMove cluster id after) : (cluster.node id).currentTerm ≤ after.currentTerm := by
  cases move with
  | keep log term lead => exact term
  | elect log leads newly => rcases newly with above | ⟨-, level⟩ <;> omega
  | extend command leads after_leads term log => exact term.ge
  | repair inFlight term follows matching log => exact term

section Loop

theorem placeEntries_behind {log : List LogEntry} {position : Nat} (full : log.length = position + 1)
    (entries : List LogEntry) : placeEntries log position entries = log ++ entries := by
  induction entries generalizing log position with
  | nil => exact (List.append_nil log).symm
  | cons entry rest ih =>
    have placed : placeEntry log (position + 1) entry = log ++ [entry] := by
      simp only [placeEntry, List.getElem?_eq_none full.le]
    rw [placeEntries, placed, ih (by rw [List.length_append, List.length_singleton, full]), List.append_assoc,
      List.singleton_append]

/-- The loop over the entries leaves either the old log, when it already continues
with them, or the old log up to the previous entry followed by them. -/
theorem placeEntries_cases (log : List LogEntry) (position : Nat) (entries : List LogEntry)
    (inside : position < log.length)
    (agree : ∀ offset old entry, log[position + 1 + offset]? = some old →
      entries[offset]? = some entry → old.term = entry.term →
      log.take (position + 1 + offset + 1) =
        (log.take (position + 1) ++ entries).take (position + 1 + offset + 1)) :
    (log.take (position + 1) ++ entries <+: log ∧ placeEntries log position entries = log) ∨
    (¬ log.take (position + 1) ++ entries <+: log ∧
      placeEntries log position entries = log.take (position + 1) ++ entries) := by
  induction entries generalizing log position with
  | nil =>
    left
    rw [List.append_nil]
    exact ⟨List.take_prefix _ _, rfl⟩
  | cons entry rest ih =>
    have lengths : (log.take (position + 1)).length = position + 1 := by
      rw [List.length_take]
      omega
    cases found : log[position + 1]? with
    | none =>
      have full : log.length = position + 1 := by
        have outside := List.getElem?_eq_none_iff.mp found
        omega
      right
      rw [List.take_of_length_le full.le]
      refine ⟨fun pre => ?_, placeEntries_behind full _⟩
      have short := pre.length_le
      rw [List.length_append, List.length_cons] at short
      omega
    | some old =>
      have present := lt_of_getElem? found
      by_cases same_term : old.term = entry.term
      · have here := agree 0 old entry found rfl same_term
        rw [Nat.add_zero] at here
        have cut : (log.take (position + 1) ++ entry :: rest).take (position + 1 + 1) =
            log.take (position + 1) ++ [entry] := by
          rw [List.take_append, lengths, List.take_of_length_le (by rw [lengths]; omega)]
          simp
        rw [cut] at here
        have joined : log.take (position + 1 + 1) ++ rest = log.take (position + 1) ++ entry :: rest := by
          rw [here, List.append_assoc, List.singleton_append]
        have placed : placeEntry log (position + 1) entry = log := by
          simp [placeEntry, found, same_term]
        have step := ih log (position + 1) present (by
          intro offset other next atOffset inRest level
          have shifted := agree (offset + 1) other next
            (by rw [← atOffset]; congr 1; omega) (by simpa using inRest) level
          have index : position + 1 + (offset + 1) + 1 = position + 1 + 1 + offset + 1 := by omega
          rw [joined]
          rwa [index] at shifted)
        rw [joined] at step
        rw [placeEntries, placed]
        exact step
      · have placed : placeEntry log (position + 1) entry = log.take (position + 1) ++ [entry] := by
          simp [placeEntry, found, same_term]
        have size : (log.take (position + 1) ++ [entry]).length = position + 1 + 1 := by
          rw [List.length_append, lengths, List.length_singleton]
        right
        refine ⟨fun pre => ?_, ?_⟩
        · have found' : (log.take (position + 1) ++ entry :: rest)[position + 1]? = some entry := by
            rw [List.getElem?_append_right (by omega), lengths, Nat.sub_self]
            rfl
          have there := getElem?_mono pre found'
          rw [found] at there
          exact same_term (congrArg LogEntry.term (Option.some.inj there))
        · rw [placeEntries, placed, placeEntries_behind size, List.append_assoc, List.singleton_append]

end Loop

def leaderOf (cluster : Cluster) (term : Int) : Option Int :=
  cluster.members.find? fun id =>
    decide ((cluster.node id).state = .leader ∧ (cluster.node id).currentTerm = term)

/-- The log of the leader of a term when it was last seen leading; term 0 has the sentinel. -/
def termLog : List Cluster → Int → List LogEntry
  | [], term => if term = 0 then [sentinel] else []
  | cluster :: past, term =>
      match leaderOf cluster term with
      | some id => (cluster.node id).log
      | none => termLog past term

theorem leaderOf_some {cluster : Cluster} {term id : Int} (found : leaderOf cluster term = some id) :
    id ∈ cluster.members ∧ (cluster.node id).state = .leader ∧ (cluster.node id).currentTerm = term := by
  refine ⟨List.mem_of_find?_eq_some found, ?_⟩
  simpa using List.find?_some found

theorem leaderOf_none {cluster : Cluster} {term id : Int} (found : leaderOf cluster term = none)
    (member : id ∈ cluster.members) (leads : (cluster.node id).state = .leader) :
    (cluster.node id).currentTerm ≠ term := by
  intro level
  have absent := List.find?_eq_none.mp found id member
  simp [leads, level] at absent

theorem led_passed {past : List Cluster} {cluster : Cluster} (run : Cluster.Reaches past cluster)
    {id term : Int} (led : LedIn (cluster :: past) id term) :
    term < (cluster.node id).currentTerm ∨
      term = (cluster.node id).currentTerm ∧ (cluster.node id).state ≠ .candidate := by
  revert id term
  apply run.invariant
  · rintro cluster fresh id term ⟨earlier, seen, leads, level⟩
    rw [List.mem_singleton] at seen
    subst seen
    exact .inr ⟨level.symm, by rw [leads]; decide⟩
  · rintro past cluster action later before known step id term ⟨earlier, seen, leads, level⟩
    rcases List.mem_cons.mp seen with rfl | inPast
    · exact .inr ⟨level.symm, by rw [leads]; decide⟩
    · have move := ((Cluster.step_effect step).move id).ballot
      have grows := move.term_le
      rcases known ⟨earlier, inPast, leads, level⟩ with passed | ⟨current, idle⟩
      · exact .inl (by omega)
      · cases move with
        | follow follows terms keeps =>
          by_cases same : (later.node id).currentTerm = (cluster.node id).currentTerm
          · exact .inr ⟨by omega, by rw [follows]; decide⟩
          · exact .inl (by omega)
        | hold state term vote votes => exact .inr ⟨by omega, by rw [state]; exact idle⟩
        | campaign term vote votes outcome => exact .inl (by omega)
        | count campaigning term vote votes outcome => exact absurd campaigning idle

theorem active_term_pos {past : List Cluster} {cluster : Cluster} (run : Cluster.Reaches past cluster)
    {id : Int} (member : id ∈ cluster.members) (active : (cluster.node id).state ≠ .follower) :
    0 < (cluster.node id).currentTerm := by
  revert id
  apply run.invariant
  · intro cluster fresh id member active
    obtain ⟨peers, onCommit, shape, -⟩ := fresh.2.2.2 id member
    rw [shape] at active
    exact absurd rfl active
  · intro past cluster action later before known step id member active
    have effect := Cluster.step_effect step
    rw [effect.members] at member
    have positive := (membership (Cluster.Reaches.loosely before)).terms_nonneg id member
    cases (effect.move id).ballot with
    | follow follows terms keeps => exact absurd follows active
    | hold state term vote votes =>
      rw [term]
      exact known member (by rw [← state]; exact active)
    | campaign term vote votes outcome => omega
    | count campaigning term vote votes outcome =>
      rw [term]
      exact known member (by rw [campaigning]; decide)

section Book

variable {past : List Cluster} {cluster later : Cluster} {action : Action}

theorem termLog_leader (run : Cluster.Reaches past cluster) {id : Int} (member : id ∈ cluster.members)
    (leads : (cluster.node id).state = .leader) :
    termLog (cluster :: past) (cluster.node id).currentTerm = (cluster.node id).log := by
  unfold termLog
  cases found : leaderOf cluster (cluster.node id).currentTerm with
  | none => exact absurd rfl (leaderOf_none found member leads)
  | some other =>
    obtain ⟨otherMember, otherLeads, level⟩ := leaderOf_some found
    have same := led_unique run.loosely otherMember member
      ⟨cluster, List.mem_cons_self, otherLeads, level⟩ ⟨cluster, List.mem_cons_self, leads, rfl⟩
    rw [same]

theorem termLog_origin (run : Cluster.Reaches past cluster) (term : Int) :
    (term = 0 ∧ termLog (cluster :: past) term = [sentinel]) ∨
    termLog (cluster :: past) term = [] ∨
    ∃ id ∈ cluster.members, LedIn (cluster :: past) id term := by
  induction run with
  | @start cluster fresh =>
    have none_leads : leaderOf cluster term = none := by
      cases found : leaderOf cluster term with
      | none => rfl
      | some id =>
        obtain ⟨member, leads, -⟩ := leaderOf_some found
        obtain ⟨peers, onCommit, shape, -⟩ := fresh.2.2.2 id member
        rw [shape] at leads
        cases leads
    unfold termLog
    rw [none_leads]
    by_cases zero : term = 0
    · exact .inl ⟨zero, by simp [termLog, zero]⟩
    · exact .inr (.inl (by simp [termLog, zero]))
  | @next past cluster later action before step ih =>
    unfold termLog
    cases found : leaderOf later term with
    | some id =>
      obtain ⟨member, leads, level⟩ := leaderOf_some found
      exact .inr (.inr ⟨id, member, later, List.mem_cons_self, leads, level⟩)
    | none =>
      rcases ih with zero | empty | ⟨id, member, earlier, seen, facts⟩
      · exact .inl zero
      · exact .inr (.inl empty)
      · rw [← (Cluster.step_effect step).members] at member
        exact .inr (.inr ⟨id, member, earlier, List.mem_cons_of_mem _ seen, facts⟩)

theorem termLog_fresh (before : Cluster.Reaches past cluster) (step : Cluster.Step cluster action later)
    {id : Int} (member : id ∈ cluster.members) (leads : (later.node id).state = .leader)
    (newly : (cluster.node id).currentTerm < (later.node id).currentTerm ∨
      (cluster.node id).state = .candidate ∧
        (later.node id).currentTerm = (cluster.node id).currentTerm) :
    termLog (cluster :: past) (later.node id).currentTerm = [] := by
  have run : Cluster.Reaches (cluster :: past) later := .next before step
  have effect := Cluster.step_effect step
  have inLater : id ∈ later.members := effect.members ▸ member
  have positive : 0 < (later.node id).currentTerm :=
    active_term_pos run inLater (by rw [leads]; decide)
  rcases termLog_origin before (later.node id).currentTerm with ⟨zero, -⟩ | empty | ⟨other, known, led⟩
  · omega
  · exact empty
  · have here : LedIn (later :: cluster :: past) id (later.node id).currentTerm :=
      ⟨later, List.mem_cons_self, leads, rfl⟩
    obtain ⟨earlier, seen, facts⟩ := led
    have same := led_unique run.loosely (effect.members ▸ known) inLater
      ⟨earlier, List.mem_cons_of_mem _ seen, facts⟩ here
    subst same
    rcases led_passed before ⟨earlier, seen, facts⟩ with passed | ⟨level, idle⟩
    · rcases newly with above | ⟨-, level⟩ <;> omega
    · rcases newly with above | ⟨campaigning, -⟩
      · omega
      · exact absurd campaigning idle

/-- The list of a term only ever grows at its end. -/
theorem termLog_grows (before : Cluster.Reaches past cluster) (step : Cluster.Step cluster action later)
    (term : Int) : termLog (cluster :: past) term <+: termLog (later :: cluster :: past) term := by
  have effect := Cluster.step_effect step
  cases found : leaderOf later term with
  | none =>
    have same : termLog (later :: cluster :: past) term = termLog (cluster :: past) term := by
      conv_lhs => unfold termLog
      rw [found]
    rw [same]
  | some id =>
    have same : termLog (later :: cluster :: past) term = (later.node id).log := by
      conv_lhs => unfold termLog
      rw [found]
    obtain ⟨inLater, leads, level⟩ := leaderOf_some found
    have member : id ∈ cluster.members := effect.members ▸ inLater
    rw [same, ← level]
    cases (effect.move id).log with
    | keep log term lead =>
      obtain ⟨led, current⟩ := lead leads
      rw [current, termLog_leader before member led, log]
    | elect log leads newly =>
      rw [termLog_fresh before step member leads newly]
      exact List.nil_prefix
    | extend command led after_leads current log =>
      rw [current, termLog_leader before member led, log]
      exact List.prefix_append _ _
    | repair inFlight term follows matching log =>
      rw [follows] at leads
      cases leads

end Book

/-- What every log satisfies: it starts with the sentinel, is cut from the logs of
leaders, has no entry later than `limit` and numbers its entries by position. -/
structure GoodLog (book : Int → List LogEntry) (limit : Int) (log : List LogEntry) : Prop where
  head : [sentinel] <+: log
  coherent : Coherent LogEntry.term book log
  bounded : ∀ entry ∈ log, entry.term ≤ limit
  indexed : ∀ (position : Nat) entry, log[position]? = some entry → entry.index = position

theorem GoodLog.mono {book larger : Int → List LogEntry} {limit higher : Int} {log : List LogEntry}
    (good : GoodLog book limit log) (grows : ∀ term, book term <+: larger term)
    (raised : limit ≤ higher) : GoodLog larger higher log :=
  ⟨good.head, good.coherent.mono grows,
    fun entry member => (good.bounded entry member).trans raised, good.indexed⟩

theorem GoodLog.restrict {book : Int → List LogEntry} {limit : Int} {log short : List LogEntry}
    (good : GoodLog book limit log) (pre : short <+: log) (nonempty : short ≠ []) :
    GoodLog book limit short := by
  refine ⟨?_, good.coherent.restrict pre, fun entry member => good.bounded entry (pre.subset member),
    fun position entry found => good.indexed position entry (getElem?_mono pre found)⟩
  apply List.prefix_of_prefix_length_le good.head pre
  exact List.length_pos_of_ne_nil nonempty

/-- The request repeats a stretch of the list of `term`, from the entry before it on. -/
def Served (book : Int → List LogEntry) (term : Int) (args : AppendEntriesArgs) : Prop :=
  ∃ pre prev, pre ++ prev :: args.entries <+: book term ∧
    args.prevLogIndex = (pre.length : Int) ∧ args.prevLogTerm = prev.term

structure LogInv (past : List Cluster) (cluster : Cluster) : Prop where
  logs : ∀ id ∈ cluster.members,
    GoodLog (termLog (cluster :: past)) (cluster.node id).currentTerm (cluster.node id).log
  book : ∀ term, termLog (cluster :: past) term ≠ [] →
    GoodLog (termLog (cluster :: past)) term (termLog (cluster :: past) term)
  requests : ∀ target term leader args, .appendRequest target term leader args ∈ cluster.net →
    Served (termLog (cluster :: past)) term args

theorem LogInv.bounded {past : List Cluster} {cluster : Cluster} (known : LogInv past cluster) :
    Bounded LogEntry.term (termLog (cluster :: past)) := by
  intro term entry member
  apply (known.book term ?_).bounded entry member
  intro empty
  rw [empty] at member
  cases member

theorem logAt_some {node : RaftNode} {index : Int} {entry : LogEntry}
    (found : node.logAt index = some entry) : 0 ≤ index ∧ node.log[index.toNat]? = some entry := by
  unfold RaftNode.logAt at found
  by_cases inside : 0 ≤ index
  · rw [if_pos inside] at found
    exact ⟨inside, found⟩
  · rw [if_neg inside] at found
    cases found

/-- A served request that matches the follower's log leaves the follower with the
leader's list up to the last new entry: kept if it was there already, else replaced. -/
theorem served_repair {book : Int → List LogEntry} {limit term : Int} {log : List LogEntry}
    {args : AppendEntriesArgs} (good : GoodLog book limit log)
    (listed : Coherent LogEntry.term book (book term)) {pre : List LogEntry} {prev found : LogEntry}
    (served : pre ++ prev :: args.entries <+: book term) (here : log[pre.length]? = some found)
    (same : found.term = prev.term) :
    (pre ++ prev :: args.entries <+: log ∧ placeEntries log pre.length args.entries = log) ∨
    (¬ pre ++ prev :: args.entries <+: log ∧
      placeEntries log pre.length args.entries = pre ++ prev :: args.entries) := by
  have sent : Coherent LogEntry.term book (pre ++ prev :: args.entries) := listed.restrict served
  have prevAt : (pre ++ prev :: args.entries)[pre.length]? = some prev := by
    rw [List.getElem?_append_right (Nat.le_refl _), Nat.sub_self]
    rfl
  have cut : log.take (pre.length + 1) = pre ++ [prev] := by
    rw [good.coherent.agree sent here prevAt same,
      List.take_append, List.take_of_length_le (by omega)]
    simp
  have joined : log.take (pre.length + 1) ++ args.entries = pre ++ prev :: args.entries := by
    rw [cut, List.append_assoc, List.singleton_append]
  have cases := placeEntries_cases log pre.length args.entries (lt_of_getElem? here) (by
    intro offset old entry atOffset inEntries level
    rw [joined]
    apply good.coherent.agree sent atOffset _ level
    rw [List.getElem?_append_right (by omega)]
    have index : pre.length + 1 + offset - pre.length = offset + 1 := by omega
    rw [index, List.getElem?_cons_succ]
    exact inEntries)
  rw [joined] at cases
  exact cases

theorem LogInv.repaired_served {past : List Cluster} {cluster : Cluster} (known : LogInv past cluster)
    {id term : Int} {args : AppendEntriesArgs} {log : List LogEntry} (member : id ∈ cluster.members)
    (served : Served (termLog (cluster :: past)) term args)
    (matching : ∃ prev, (cluster.node id).logAt args.prevLogIndex = some prev ∧
      prev.term = args.prevLogTerm)
    (shape : log = placeEntries (cluster.node id).log args.prevLogIndex.toNat args.entries) :
    ∃ n : Nat, args.prevLogIndex + args.entries.length = n ∧
      n < (termLog (cluster :: past) term).length ∧
      (((termLog (cluster :: past) term).take (n + 1) <+: (cluster.node id).log ∧
          log = (cluster.node id).log) ∨
        (¬ (termLog (cluster :: past) term).take (n + 1) <+: (cluster.node id).log ∧
          log = (termLog (cluster :: past) term).take (n + 1))) := by
  obtain ⟨pre, prev, listed, index, level⟩ := served
  obtain ⟨found, located, same⟩ := matching
  have filled : termLog (cluster :: past) term ≠ [] := by
    intro empty
    rw [empty, List.prefix_nil] at listed
    exact absurd (congrArg List.length listed) (by simp)
  have here := (logAt_some located).2
  rw [index, Int.toNat_natCast] at here shape
  have size : (pre ++ prev :: args.entries).length = pre.length + args.entries.length + 1 := by
    rw [List.length_append, List.length_cons]
    omega
  have bound := listed.length_le
  have taken : (termLog (cluster :: past) term).take (pre.length + args.entries.length + 1) =
      pre ++ prev :: args.entries := by
    rw [← take_prefix_take listed size.ge, ← size, List.take_length]
  refine ⟨pre.length + args.entries.length, by rw [index]; push_cast; rfl, by omega, ?_⟩
  rw [taken, shape]
  exact served_repair (known.logs id member) (known.book term filled).coherent listed here
    (same.trans level)

theorem LogInv.repaired {past : List Cluster} {cluster : Cluster} (known : LogInv past cluster)
    {id term leader : Int} {args : AppendEntriesArgs} {log : List LogEntry} (member : id ∈ cluster.members)
    (inFlight : .appendRequest id term leader args ∈ cluster.net)
    (matching : ∃ prev, (cluster.node id).logAt args.prevLogIndex = some prev ∧
      prev.term = args.prevLogTerm)
    (shape : log = placeEntries (cluster.node id).log args.prevLogIndex.toNat args.entries) :
    ∃ n : Nat, args.prevLogIndex + args.entries.length = n ∧
      n < (termLog (cluster :: past) term).length ∧
      (((termLog (cluster :: past) term).take (n + 1) <+: (cluster.node id).log ∧
          log = (cluster.node id).log) ∨
        (¬ (termLog (cluster :: past) term).take (n + 1) <+: (cluster.node id).log ∧
          log = (termLog (cluster :: past) term).take (n + 1))) :=
  known.repaired_served member (known.requests _ _ _ _ inFlight) matching shape

theorem logInv_initial {cluster : Cluster} (fresh : cluster.Initial) : LogInv [] cluster := by
  have run : Cluster.Reaches [] cluster := .start fresh
  obtain ⟨-, -, quiet, nodes⟩ := fresh
  have zero : termLog [cluster] 0 = [sentinel] := by
    rcases termLog_origin run 0 with ⟨-, same⟩ | empty | ⟨id, member, earlier, seen, leads, -⟩
    · exact same
    · unfold termLog at empty
      cases found : leaderOf cluster 0 with
      | none =>
        rw [found] at empty
        cases empty
      | some id =>
        obtain ⟨member, leads, -⟩ := leaderOf_some found
        obtain ⟨peers, onCommit, shape, -⟩ := nodes id member
        rw [shape] at leads
        cases leads
    · rw [List.mem_singleton] at seen
      subst seen
      obtain ⟨peers, onCommit, shape, -⟩ := nodes id member
      rw [shape] at leads
      cases leads
  have single : GoodLog (termLog [cluster]) 0 [sentinel] := by
    refine ⟨List.prefix_refl _, ?_, by simp [sentinel], ?_⟩
    · intro position entry found
      have inside := lt_of_getElem? found
      have first : position = 0 := by simpa using inside
      subst first
      cases Option.some.inj found
      change [sentinel] <+: termLog [cluster] 0
      rw [zero]
    · intro position entry found
      have inside := lt_of_getElem? found
      have first : position = 0 := by simpa using inside
      subst first
      cases Option.some.inj found
      rfl
  refine ⟨?_, ?_, ?_⟩
  · intro id member
    obtain ⟨peers, onCommit, shape, -⟩ := nodes id member
    rw [shape]
    exact single
  · intro term nonempty
    rcases termLog_origin run term with ⟨rfl, same⟩ | empty | ⟨id, member, earlier, seen, leads, -⟩
    · rw [same]
      exact single
    · exact absurd empty nonempty
    · rw [List.mem_singleton] at seen
      subst seen
      obtain ⟨peers, onCommit, shape, -⟩ := nodes id member
      rw [shape] at leads
      cases leads
  · intro target term leader args inFlight
    rw [quiet] at inFlight
    cases inFlight

theorem Served.mono {book larger : Int → List LogEntry} {term : Int} {args : AppendEntriesArgs}
    (served : Served book term args) (grows : ∀ t, book t <+: larger t) : Served larger term args := by
  obtain ⟨pre, prev, listed, index, level⟩ := served
  exact ⟨pre, prev, listed.trans (grows term), index, level⟩

theorem heartbeatFor_served {node : RaftNode} {peer : Int} {args : AppendEntriesArgs}
    (built : node.heartbeatFor peer = some (peer, args)) :
    args.leaderCommit = node.commitIndex ∧
    ∃ pre prev, pre ++ prev :: args.entries = node.log ∧ args.prevLogIndex = (pre.length : Int) ∧
      args.prevLogTerm = prev.term := by
  unfold RaftNode.heartbeatFor at built
  split at built
  · cases built
  next prev found =>
    simp only [Option.some.injEq, Prod.mk.injEq, true_and] at built
    obtain ⟨inside, here⟩ := logAt_some found
    have bound := lt_of_getElem? here
    subst built
    refine ⟨rfl, node.log.take (node.nextIndex peer - 1).toNat, prev, ?_, ?_, rfl⟩
    · have next : (node.nextIndex peer).toNat = (node.nextIndex peer - 1).toNat + 1 := by omega
      simp only [next]
      obtain ⟨_, same⟩ := List.getElem?_eq_some_iff.mp here
      rw [← same, List.cons_getElem_drop_succ]
      exact List.take_append_drop _ _
    · rw [List.length_take]
      simp only
      omega

section Step

variable {past : List Cluster} {cluster later : Cluster} {action : Action}

theorem goodLog_step (before : Cluster.Reaches past cluster) (step : Cluster.Step cluster action later)
    (known : LogInv past cluster) {id : Int} (member : id ∈ cluster.members) :
    GoodLog (termLog (later :: cluster :: past)) (later.node id).currentTerm (later.node id).log := by
  have run : Cluster.Reaches (cluster :: past) later := .next before step
  have effect := Cluster.step_effect step
  have grows := termLog_grows before step
  have move := (effect.move id).log
  have good := known.logs id member
  cases move with
  | keep log term lead =>
    rw [log]
    exact good.mono grows term
  | elect log leads newly =>
    rw [log]
    refine good.mono grows ?_
    rcases newly with above | ⟨-, level⟩ <;> omega
  | extend command leads after_leads term log =>
    have listed := termLog_leader run (effect.members ▸ member) after_leads
    rw [term] at listed ⊢
    have old := good.mono grows (le_refl _)
    rw [log] at listed ⊢
    refine ⟨old.head.trans (List.prefix_append _ _), old.coherent.append ?_, ?_, ?_⟩
    · rw [listed]
    · intro entry inside
      rcases List.mem_append.mp inside with earlier | last
      · exact old.bounded entry earlier
      · rw [List.mem_singleton.mp last]
    · intro position entry found
      by_cases inside : position < (cluster.node id).log.length
      · rw [List.getElem?_append_left inside] at found
        exact old.indexed position entry found
      · have bound := lt_of_getElem? found
        rw [List.length_append, List.length_singleton] at bound
        have last : position = (cluster.node id).log.length := by omega
        subst last
        rw [List.getElem?_append_right (Nat.le_refl _), Nat.sub_self] at found
        cases Option.some.inj found
        rfl
  | repair inFlight term follows matching log =>
    obtain ⟨n, -, inside, ⟨-, same⟩ | ⟨-, same⟩⟩ := known.repaired member inFlight matching log
    · rw [same]
      exact good.mono grows term
    · have filled : termLog (cluster :: past) (later.node id).currentTerm ≠ [] :=
        List.ne_nil_of_length_pos (by omega)
      rw [same]
      refine ((known.book _ filled).restrict (List.take_prefix _ _) ?_).mono grows (le_refl _)
      exact List.ne_nil_of_length_pos (by rw [List.length_take]; omega)

theorem logInv_step (before : Cluster.Reaches past cluster) (step : Cluster.Step cluster action later)
    (known : LogInv past cluster) : LogInv (cluster :: past) later := by
  have run : Cluster.Reaches (cluster :: past) later := .next before step
  have effect := Cluster.step_effect step
  have grows := termLog_grows before step
  have logs : ∀ id ∈ later.members, GoodLog (termLog (later :: cluster :: past))
      (later.node id).currentTerm (later.node id).log :=
    fun id member => goodLog_step before step known (effect.members ▸ member)
  refine ⟨logs, ?_, ?_⟩
  · intro term filled
    cases found : leaderOf later term with
    | some id =>
      obtain ⟨member, leads, level⟩ := leaderOf_some found
      have good := logs id member
      rw [← termLog_leader run member leads, level] at good
      exact good
    | none =>
      have same : termLog (later :: cluster :: past) term = termLog (cluster :: past) term := by
        conv_lhs => unfold termLog
        rw [found]
      have good := known.book term (by rw [← same]; exact filled)
      rw [same]
      exact good.mono grows (le_refl _)
  · intro target term leader args inFlight
    rcases effect.sent inFlight with old | sent
    · exact (known.requests target term leader args old).mono grows
    · cases sent with
      | @appendRequest id peer _ member sender leads listed built =>
        obtain ⟨-, pre, prev, whole, index, level⟩ := heartbeatFor_served built
        refine ⟨pre, prev, ?_, index, level⟩
        have listing := termLog_leader run (effect.members ▸ member) (by rw [sender]; exact leads)
        rw [sender] at listing
        rw [listing, whole]

theorem logInv (run : Cluster.Reaches past cluster) : LogInv past cluster :=
  run.invariant (fun _ fresh => logInv_initial fresh)
    fun _ _ _ _ before known step => logInv_step before step known

/-- Equal terms at one position of two logs force equal entries up to it; entries carry their
position, terms never decrease along a log, and none exceeds the node's own. -/
def LogsMatch (cluster : Cluster) : Prop :=
  (∀ first ∈ cluster.members, ∀ second ∈ cluster.members, ∀ (position : Nat) (mine yours : LogEntry),
    (cluster.node first).log[position]? = some mine →
    (cluster.node second).log[position]? = some yours → mine.term = yours.term →
    ∀ lower ≤ position, (cluster.node first).log[lower]? = (cluster.node second).log[lower]?) ∧
  ∀ id ∈ cluster.members,
    (∀ (position : Nat) (entry : LogEntry), (cluster.node id).log[position]? = some entry →
      entry.index = position ∧ entry.term ≤ (cluster.node id).currentTerm) ∧
    ∀ (low high : Nat) (early late : LogEntry), low ≤ high →
      (cluster.node id).log[low]? = some early → (cluster.node id).log[high]? = some late →
      early.term ≤ late.term

theorem log_matching (run : Cluster.Reaches past cluster) : LogsMatch cluster := by
  have known := logInv run
  refine ⟨?_, fun id member => ⟨?_, ?_⟩⟩
  · intro first firstMember second secondMember position mine yours here there same lower below
    have agree := (known.logs first firstMember).coherent.agree
      (known.logs second secondMember).coherent here there same
    rw [← List.getElem?_take_of_lt (by omega : lower < position + 1), agree,
      List.getElem?_take_of_lt (by omega)]
  · intro position entry found
    exact ⟨(known.logs id member).indexed position entry found,
      (known.logs id member).bounded entry (List.mem_of_getElem? found)⟩
  · intro low high early late ordered first second
    exact (known.logs id member).coherent.monotone known.bounded ordered first second

end Step

theorem log_matching_trio : ∃ past cluster, Cluster.Reaches past cluster ∧
    (cluster.node 1).log.length = 2 ∧ (cluster.node 2).log.length = 2 ∧ LogsMatch cluster := by
  have replicated : ∃ visited ∈ replay (Cluster.actWhen Cluster.NoDuplicate) Cluster.trio
      [.start 1, .start 2, .startElection 1, .deliver 0, .deliver 1, .propose 1 [0x61],
        .sendHeartbeats 1, .deliver 1],
      (visited.2.node 1).log.length = 2 ∧ (visited.2.node 2).log.length = 2 := by
    decide +kernel
  obtain ⟨visited, played, first, second⟩ := replicated
  have run := Cluster.ReachesWhen.reaches (Cluster.trio_replay played)
  exact ⟨_, _, run, first, second, log_matching run⟩

end QuorumDB.Raft
