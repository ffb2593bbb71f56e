import QuorumDB.Raft.PayloadCodec
import QuorumDB.Raft.StateMachine
import QuorumDB.Rpc.MessageCodec

/-!
The codec of commands with its buffers and offsets (`raft/raft_command.h`), and the way of a
command from the leader to a follower through all three formats.
-/

namespace QuorumDB.Raft
open LittleEndian NetworkOrder Cursor

theorem RaftCommand.deserialize_cons {type : UInt8} {rest : Bytes} (long : 20 ≤ rest.length) :
    RaftCommand.deserialize (type :: rest) =
      ⟨type, (UInt64.ofNat (readU64 rest).1).toInt64,
        if (readU32 (rest.drop 16)).1 ≤ rest.length - 20 then (rest.drop 20).take (readU32 (rest.drop 16)).1 else [],
        (UInt64.ofNat (readU64 (rest.drop 8)).1).toInt64⟩ := by
  have enough : ¬ (type :: rest).length < 21 := by
    rw [List.length_cons]
    omega
  simp only [RaftCommand.deserialize, if_neg enough, readU64_rest, fixed_readU32.rest, List.drop_drop, Nat.reduceAdd,
    List.length_drop]

theorem RaftCommand.serialize_length (command : RaftCommand) : command.serialize.length = 21 + command.name.length := by
  simp only [RaftCommand.serialize, List.length_cons, List.length_append, u64Bytes_length, u32Bytes_length]
  omega

namespace Buffered

def serialize (command : RaftCommand) : Option Bytes :=
  fill (21 + command.name.length)
    ([command.type] :: u64Writes command.id.toUInt64.toNat ++
      (u64Writes command.value.toUInt64.toNat ++ [u32Bytes command.name.length, command.name]))

/-- The reads behind the test of the size. -/
def readCommand (bytes : Bytes) : Reader RaftCommand := do
  let type ← loadAs 1 (readValue 1) bytes
  let id ← loadU64 bytes
  let value ← loadU64 bytes
  let nameSize ← loadU32 bytes
  if (← get) + nameSize ≤ bytes.length then
    let name ← load bytes nameSize
    return ⟨UInt8.ofNat type, (UInt64.ofNat id).toInt64, name, (UInt64.ofNat value).toInt64⟩
  else
    return ⟨UInt8.ofNat type, (UInt64.ofNat id).toInt64, [], (UInt64.ofNat value).toInt64⟩

def deserialize (bytes : Bytes) : Option RaftCommand :=
  if bytes.length < 21 then some ⟨RaftCommand.insert, 0, [], 0⟩ else (readCommand bytes).run' 0

theorem serialize_eq (command : RaftCommand) : serialize command = some command.serialize := by
  have writes : ([command.type] :: u64Writes command.id.toUInt64.toNat ++
      (u64Writes command.value.toUInt64.toNat ++ [u32Bytes command.name.length, command.name])).flatten =
      command.serialize := by
    simp only [List.cons_append, List.flatten_cons, List.flatten_append, u64Writes_flatten, List.flatten_nil,
      List.append_nil, List.nil_append, RaftCommand.serialize]
  rw [serialize, fill_eq, writes, RaftCommand.serialize_length, if_pos (Nat.le_refl _), Nat.sub_self, List.replicate_zero, List.append_nil]

theorem readCommand_eq {bytes : Bytes} (long : ¬ bytes.length < 21) :
    (readCommand bytes).run' 0 = some (RaftCommand.deserialize bytes) := by
  cases bytes with
  | nil => exact absurd (by decide) long
  | cons type rest =>
    have single : UInt8.ofNat (readValue 1 (type :: rest)).1 = type := UInt8.ofNat_toNat
    have size : (type :: rest).length = rest.length + 1 := rfl
    have inside : 20 ≤ rest.length := by omega
    rw [RaftCommand.deserialize_cons inside, readCommand]
    simp (disch := omega) only [StateT.run'_eq, StateT.run_bind, StateT.run_get, loadAs_run (fixed_readValue 1),
      loadU32_run, loadU64_run, Option.bind_eq_bind, Option.bind_some, Option.pure_def, Nat.zero_add, Nat.reduceAdd,
      List.drop_zero, single, List.drop_succ_cons]
    by_cases named : (readU32 (rest.drop 16)).1 ≤ rest.length - 20
    · rw [if_pos named, if_pos (by omega)]
      simp (disch := omega) only [StateT.run_bind, load_run, Option.bind_eq_bind, Option.bind_some, List.drop_succ_cons]
      rfl
    · rw [if_neg named, if_neg (by omega)]
      rfl

theorem deserialize_eq (bytes : Bytes) : deserialize bytes = some (RaftCommand.deserialize bytes) := by
  by_cases short : bytes.length < 21
  · rw [deserialize, if_pos short]
    cases bytes with
    | nil => rfl
    | cons type rest => rw [RaftCommand.deserialize, if_pos short]
  · rw [deserialize, if_neg short, readCommand_eq short]

end Buffered

theorem RaftCommand.deserialize_serialize {command : RaftCommand} (short : command.name.length < 2 ^ 32) :
    RaftCommand.deserialize command.serialize = command := by
  have size : command.name.length % 2 ^ 32 = command.name.length := Nat.mod_eq_of_lt short
  have enough : ¬ command.serialize.length < 21 := by
    rw [RaftCommand.serialize_length]
    omega
  unfold RaftCommand.serialize at enough ⊢
  simp only [RaftCommand.deserialize, if_neg enough, readU64_append command.id.toUInt64.toNat_lt,
    readU64_append command.value.toUInt64.toNat_lt, readU32_append, size, Nat.le_refl, if_true, List.take_length,
    UInt64.ofNat_toNat, Int64.toInt64_toUInt64]

structure Submission where
  term : Int
  index : Int
  command : RaftCommand

def Submission.entry (submission : Submission) : LogEntry :=
  ⟨submission.term, submission.index, submission.command.serialize⟩

/-- Commands arrive as they were submitted, through buffers that none of the six functions leaves. -/
theorem commands_arrive (submissions : List Submission) (prevLogIndex prevLogTerm leaderCommit term senderId : Int)
    (typed : AppendEntriesArgs.Typed ⟨prevLogIndex, prevLogTerm, leaderCommit, submissions.map Submission.entry⟩)
    (termFits : Signed 32 term) (senderFits : Signed 32 senderId)
    (small : 13 + (serializeAppendEntriesPayload
      ⟨prevLogIndex, prevLogTerm, leaderCommit, submissions.map Submission.entry⟩).length < 2 ^ 32) :
    ∃ payload frame,
      submissions.map (fun submission => Buffered.serialize submission.command) =
        (submissions.map Submission.entry).map (fun entry => some entry.command) ∧
      Buffered.serializeAppendEntriesPayload
        ⟨prevLogIndex, prevLogTerm, leaderCommit, submissions.map Submission.entry⟩ = some payload ∧
      Rpc.Buffered.serializeRpcMessage ⟨.appendEntries, term, senderId, payload⟩ = some frame ∧
      Rpc.Buffered.deserializeRpcMessage frame = some (some ⟨.appendEntries, term, senderId, payload⟩) ∧
      Buffered.deserializeAppendEntriesPayload payload =
        some (some ⟨prevLogIndex, prevLogTerm, leaderCommit, submissions.map Submission.entry⟩) ∧
      (submissions.map Submission.entry).map (fun entry => Buffered.deserialize entry.command) =
        submissions.map (fun submission => some submission.command) := by
  generalize arguments : (⟨prevLogIndex, prevLogTerm, leaderCommit, submissions.map Submission.entry⟩ : AppendEntriesArgs) =
    args at typed small ⊢
  have size := serializeAppendEntriesPayload_length args
  have entries : args.entries = submissions.map Submission.entry := by rw [← arguments]
  refine ⟨serializeAppendEntriesPayload args,
    Rpc.frame ⟨.appendEntries, term, senderId, serializeAppendEntriesPayload args⟩, ?_, ?_, ?_, ?_, ?_, ?_⟩
  · rw [List.map_map]
    apply List.map_congr_left
    intro submission _
    exact Buffered.serialize_eq submission.command
  · exact Buffered.serializeAppendEntriesPayload_eq args
  · rw [Rpc.Buffered.serializeRpcMessage_eq]
    exact Rpc.serializeRpcMessage_eq small
  · rw [Rpc.Buffered.deserializeRpcMessage_eq]
    exact congrArg some (Rpc.deserializeRpcMessage_frame ⟨termFits, senderFits⟩ small)
  · rw [Buffered.deserializeAppendEntriesPayload_eq]
    exact congrArg some (deserializeAppendEntriesPayload_serialize typed (by omega))
  · rw [List.map_map]
    apply List.map_congr_left
    intro submission inside
    have part := entry_size_le (List.mem_map_of_mem inside : submission.entry ∈ submissions.map Submission.entry)
    rw [← entries] at part
    have length : submission.entry.command.length = 21 + submission.command.name.length :=
      submission.command.serialize_length
    rw [Function.comp_apply, Buffered.deserialize_eq]
    exact congrArg some (RaftCommand.deserialize_serialize (by omega))

/-- An insert whose name holds a zero byte, and a delete. -/
theorem commands_arrive_pair :
    let submissions : List Submission := [⟨1, 4, ⟨0, 5, [65, 0, 66], -7⟩⟩, ⟨2, 5, ⟨2, 9, [], 0⟩⟩]
    ∃ payload frame,
      submissions.map (fun submission => Buffered.serialize submission.command) =
        (submissions.map Submission.entry).map (fun entry => some entry.command) ∧
      Buffered.serializeAppendEntriesPayload ⟨3, 1, 3, submissions.map Submission.entry⟩ = some payload ∧
      Rpc.Buffered.serializeRpcMessage ⟨.appendEntries, 2, 1, payload⟩ = some frame ∧
      Rpc.Buffered.deserializeRpcMessage frame = some (some ⟨.appendEntries, 2, 1, payload⟩) ∧
      Buffered.deserializeAppendEntriesPayload payload = some (some ⟨3, 1, 3, submissions.map Submission.entry⟩) ∧
      (submissions.map Submission.entry).map (fun entry => Buffered.deserialize entry.command) =
        submissions.map (fun submission => some submission.command) := by
  intro submissions
  have typed : AppendEntriesArgs.Typed ⟨3, 1, 3, submissions.map Submission.entry⟩ := by
    refine ⟨by decide, by decide, by decide, fun entry inside => ?_⟩
    rcases List.mem_cons.mp inside with rfl | later
    · exact ⟨by decide, by decide⟩
    · rw [List.mem_singleton.mp later]
      exact ⟨by decide, by decide⟩
  exact commands_arrive submissions 3 1 3 2 1 typed (by decide) (by decide) (by decide)

end QuorumDB.Raft
