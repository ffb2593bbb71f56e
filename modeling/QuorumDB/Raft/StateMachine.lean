import QuorumDB.Raft.NodeRun

/-!
Commands (`raft/raft_command.h`) and the state machine that executes them
(`raft/state_machine.cpp`), fed by the callback of a node.
-/

namespace QuorumDB.Raft
open Execution NetworkOrder

/-- `type` is the byte of the enumeration, which decoding does not check. -/
structure RaftCommand where
  type : UInt8
  id : Int64
  name : Bytes
  value : Int64
  deriving DecidableEq, Repr

namespace RaftCommand

def insert : UInt8 := 0
def updateValue : UInt8 := 1
def delete : UInt8 := 2

/-- The name's length is cut to 32 bits, the name is not. -/
def serialize (command : RaftCommand) : Bytes :=
  command.type :: (u64Bytes command.id.toUInt64.toNat ++ (u64Bytes command.value.toUInt64.toNat ++
    (u32Bytes command.name.length ++ command.name)))

/-- A string too short for the fixed fields is the command with all fields zero; a name that
would end past the string is left empty. -/
def deserialize (bytes : Bytes) : RaftCommand :=
  match bytes with
  | [] => ⟨insert, 0, [], 0⟩
  | type :: rest =>
      if bytes.length < 21 then ⟨insert, 0, [], 0⟩
      else
        let (id, rest) := readU64 rest
        let (value, rest) := readU64 rest
        let (nameSize, rest) := readU32 rest
        ⟨type, (UInt64.ofNat id).toInt64, if nameSize ≤ rest.length then rest.take nameSize else [],
          (UInt64.ofNat value).toInt64⟩

end RaftCommand

/-- The calls of a query engine: what each returns or throws, and the engine afterwards. -/
structure EngineCalls (Engine Failure : Type) where
  insert : Int64 → Bytes → Int64 → Engine → Except Failure Bool × Engine
  updateValue : Int64 → Int64 → Engine → Except Failure Bool × Engine
  deleteById : Int64 → Engine → Except Failure Bool × Engine

/-- `engine_` may be null. -/
structure RaftStateMachine (Engine : Type) where
  engine : Option Engine
  lastAppliedIndex : Int

namespace RaftStateMachine

variable {Engine Failure : Type}

def new (engine : Option Engine) : RaftStateMachine Engine := ⟨engine, 0⟩

/-- The switch over the command type. -/
def execute (calls : EngineCalls Engine Failure) (command : RaftCommand) (engine : Engine) :
    Except Failure Bool × Engine :=
  if command.type = RaftCommand.insert then calls.insert command.id command.name command.value engine
  else if command.type = RaftCommand.updateValue then calls.updateValue command.id command.value engine
  else if command.type = RaftCommand.delete then calls.deleteById command.id engine
  else (.ok false, engine)

/-- The test that drops a command as applied before. -/
def Drops (machine : RaftStateMachine Engine) (logIndex : Int) : Prop := logIndex ≤ machine.lastAppliedIndex

instance (machine : RaftStateMachine Engine) (logIndex : Int) : Decidable (machine.Drops logIndex) :=
  inferInstanceAs (Decidable (_ ≤ _))

/-- What the engine throws passes through and leaves the index as it was. -/
def apply (calls : EngineCalls Engine Failure) (machine : RaftStateMachine Engine) (serializedCommand : Bytes)
    (logIndex : Int) : Except Failure Unit × RaftStateMachine Engine :=
  if machine.Drops logIndex then (.ok (), machine)
  else
    match machine.engine with
    | none => (.ok (), { machine with lastAppliedIndex := logIndex })
    | some engine =>
        match execute calls (RaftCommand.deserialize serializedCommand) engine with
        | (.error failure, after) => (.error failure, { machine with engine := some after })
        | (.ok _, after) => (.ok (), ⟨some after, logIndex⟩)

def applyAll (calls : EngineCalls Engine Failure) (machine : RaftStateMachine Engine) (commits : List (Bytes × Int)) :
    RaftStateMachine Engine :=
  commits.foldl (fun machine call => (machine.apply calls call.1 call.2).2) machine

theorem apply_lastAppliedIndex (calls : EngineCalls Engine Failure) (machine : RaftStateMachine Engine)
    (serializedCommand : Bytes) (logIndex : Int) :
    (machine.apply calls serializedCommand logIndex).2.lastAppliedIndex ≤ max machine.lastAppliedIndex logIndex := by
  unfold apply
  split_ifs with dropped
  · exact le_max_left _ _
  · cases machine.engine with
    | none => exact le_max_right _ _
    | some engine =>
      match ran : execute calls (RaftCommand.deserialize serializedCommand) engine with
      | (.error failure, after) =>
        simp only [ran]
        exact le_max_left _ _
      | (.ok answer, after) =>
        simp only [ran]
        exact le_max_right _ _

theorem applyAll_lastAppliedIndex (calls : EngineCalls Engine Failure) {limit : Int} (commits : List (Bytes × Int))
    (below : ∀ call ∈ commits, call.2 ≤ limit) {machine : RaftStateMachine Engine} (start : machine.lastAppliedIndex ≤ limit) :
    (machine.applyAll calls commits).lastAppliedIndex ≤ limit := by
  induction commits generalizing machine with
  | nil => exact start
  | cons first rest ih =>
    refine ih (fun call inside => below call (List.mem_cons_of_mem _ inside)) ?_
    have step := apply_lastAppliedIndex calls machine first.1 first.2
    exact step.trans (max_le start (below first List.mem_cons_self))

end RaftStateMachine

/-- The callback is set before the first step and stays. -/
def NodeAction.Ordinary : NodeAction → Prop
  | .appendEntries _ _ args => 0 ≤ args.prevLogIndex
  | .setOnCommitCallback _ => False
  | _ => True

namespace RaftNode

def StartsApplying (node : RaftNode) : Prop := Initial node ∧ node.onCommit = true

def ApplyingStep (node : RaftNode) (action : NodeAction) (later : RaftNode) : Prop :=
  Step node action later ∧ action.Ordinary

abbrev ReachesApplying : List RaftNode → RaftNode → Prop := Run StartsApplying ApplyingStep

/-- The calls so far carry the indices from 1 to the last one applied. -/
structure InOrder (node : RaftNode) : Prop where
  onCommit : node.onCommit = true
  numbered : ∀ (position : Nat) (call : Bytes × Int), node.commits[position]? = some call → call.2 = position + 1
  count : node.lastApplied = node.commits.length

variable {node later : RaftNode}

theorem act_onCommit {action : NodeAction} (ordinary : action.Ordinary) (moved : node.act action = some later) :
    later.onCommit = node.onCommit := by
  cases act_turn moved with
  | setOnCommitCallback => exact ordinary.elim
  | @follow term leader => exact (seeLeader_fields node term leader).2.2.2.2
  | @accept term leader args later fresh matching accepted =>
    obtain ⟨commitIndex, lastApplied, commits, rfl⟩ := acceptEntries_frame accepted
    exact (seeLeader_fields node term leader).2.2.2.2
  | acknowledge leads advanced =>
    obtain ⟨commitIndex, lastApplied, commits, rfl⟩ := commitScan_frame advanced
    rfl
  | _ => rfl

theorem InOrder.step (inOrder : node.InOrder) (applies : node.Applies later) (same : later.onCommit = node.onCommit) :
    later.InOrder := by
  obtain ⟨-, calls, commits, calling, count⟩ := applies
  have total := count inOrder.onCommit
  rw [inOrder.count] at total
  refine ⟨same.trans inOrder.onCommit, fun position call found => ?_, ?_⟩
  · rw [commits] at found
    by_cases old : position < node.commits.length
    · rw [List.getElem?_append_left old] at found
      exact inOrder.numbered position call found
    · rw [List.getElem?_append_right (Nat.le_of_not_lt old)] at found
      have index := (calling _ call found).1
      rw [inOrder.count] at index
      omega
  · rw [total, commits, List.length_append]
    exact (Int.natCast_add _ _).symm

theorem ReachesApplying.reaches {past : List RaftNode} (run : ReachesApplying past node) : Reaches past node := by
  induction run with
  | start fresh => exact .start fresh.1
  | next before step ih => exact .next ih step.1

theorem inOrder {past : List RaftNode} (run : ReachesApplying past node) : node.InOrder := by
  refine @Run.invariant _ _ StartsApplying ApplyingStep (fun _ state => state.InOrder) ?_ ?_ _ _ run
  · rintro fresh ⟨⟨nodeId, peers, onCommit, -, rfl⟩, on⟩
    exact ⟨on, (fun position call found => nomatch found), rfl⟩
  · intro past before action after reached known step
    obtain ⟨-, applies⟩ := act_sound (sound (ReachesApplying.reaches reached)) step.1.2.1
    exact known.step applies (act_onCommit step.2 step.1.2.1)

/-- Each index up to the last one applied is passed to the callback exactly once, in order, from inside the
log, nothing committed is left out, and the state machine drops none of the calls. -/
theorem applied_in_order {past : List RaftNode} (run : ReachesApplying past node) :
    (∀ (position : Nat) (call : Bytes × Int), node.commits[position]? = some call → call.2 = position + 1) ∧
    (node.lastApplied = node.commits.length ∧ node.commitIndex ≤ node.lastApplied) ∧
    (∀ action later, ApplyingStep node action later → ∃ calls, later.commits = node.commits ++ calls ∧
      ∀ call ∈ calls, ∃ entry, later.logAt call.2 = some entry ∧ entry.command = call.1) ∧
    (∀ term leader args, 0 ≤ args.prevLogIndex → (node.handleAppendEntries term leader args).isSome = true) ∧
    (∀ peer sent reply, (node.handleAppendEntriesReply peer reply sent).isSome = true) ∧
    ∀ (Engine Failure : Type) (calls : EngineCalls Engine Failure) (engine : Option Engine) before call after,
      node.commits = before ++ call :: after →
        ¬ ((RaftStateMachine.new engine).applyAll calls before).Drops call.2 := by
  have known := sound (ReachesApplying.reaches run)
  have order := inOrder run
  refine ⟨order.numbered, ⟨order.count, known.applied⟩, fun action later step => ?_, fun term leader args low => ?_,
    fun peer sent reply => ?_, ?_⟩
  · obtain ⟨-, -, calls, commits, calling, -⟩ := act_sound known step.1.2.1
    refine ⟨calls, commits, fun call inside => ?_⟩
    obtain ⟨position, found⟩ := List.mem_iff_getElem?.mp inside
    exact (calling position call found).2
  · obtain ⟨later, reply, ran, -⟩ := @handleAppendEntries_sound node known term leader args fun _ => low
    exact Option.isSome_iff_exists.mpr ⟨_, ran⟩
  · obtain ⟨later, ran, -⟩ := handleAppendEntriesReply_sound known peer sent reply
    exact Option.isSome_iff_exists.mpr ⟨_, ran⟩
  · intro Engine Failure calls engine before call after commits
    have index := order.numbered before.length call (by
      rw [commits, List.getElem?_append_right (Nat.le_refl _), Nat.sub_self]
      rfl)
    have earlier : ∀ other ∈ before, other.2 ≤ before.length := fun other inside => by
      obtain ⟨position, found⟩ := List.mem_iff_getElem?.mp inside
      have less := TermLog.lt_of_getElem? found
      have same := order.numbered position other (by rw [commits, List.getElem?_append_left less]; exact found)
      omega
    have behind := @RaftStateMachine.applyAll_lastAppliedIndex Engine Failure calls before.length before earlier
      (RaftStateMachine.new engine) (Int.natCast_nonneg before.length)
    exact fun dropped => absurd (Int.le_trans dropped behind) (by omega)

/-- A follower that applies the two entries of one request. -/
theorem applied_in_order_pair : ∃ past node, ReachesApplying past node ∧ node.commits = [([5], 1), ([6], 2)] ∧
    (∀ (position : Nat) (call : Bytes × Int), node.commits[position]? = some call → call.2 = position + 1) ∧
    (node.lastApplied = 2 ∧ node.commitIndex ≤ 2) ∧
    ∀ (Engine Failure : Type) (calls : EngineCalls Engine Failure) (engine : Option Engine),
      ¬ ((RaftStateMachine.new engine).applyAll calls [([5], 1)]).Drops 2 := by
  let args : AppendEntriesArgs := ⟨0, 0, 2, [⟨1, 1, [5]⟩, ⟨1, 2, [6]⟩]⟩
  have fresh : ReachesApplying [] (new 1 [2] true) := .start ⟨⟨1, [2], true, by decide, rfl⟩, rfl⟩
  have typed : args.Typed := ⟨by decide, by decide, by decide, fun entry inside => by
    rcases List.mem_cons.mp inside with rfl | other
    · exact ⟨by decide, by decide⟩
    · rw [List.mem_singleton.mp other]
      exact ⟨by decide, by decide⟩⟩
  have low : 0 ≤ args.prevLogIndex := by decide
  have step : ApplyingStep (new 1 [2] true) (.appendEntries 1 2 args) _ :=
    ⟨⟨⟨by decide, by decide, typed⟩, rfl, by decide⟩, low⟩
  obtain ⟨numbered, count, -, -, -, kept⟩ := applied_in_order (fresh.next step)
  exact ⟨_, _, fresh.next step, rfl, numbered, count, fun Engine Failure calls engine =>
    kept Engine Failure calls engine [([5], 1)] ([6], 2) [] rfl⟩

end RaftNode

end QuorumDB.Raft
