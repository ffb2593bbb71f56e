import QuorumDB.Lib.Cursor
import QuorumDB.Rpc.Message

/-!
The frame of an RPC message with its buffers and offsets (`rpc/rpc_message.h`). Exactly the
frames of messages are accepted.
-/

namespace QuorumDB.Rpc
open LittleEndian NetworkOrder Cursor Raft

namespace Buffered

/-- The body size is cut to 32 bits, and the string is made for what is left of it. -/
def serializeRpcMessage (message : RpcMessage) : Option Bytes := do
  let payloadSize := message.payload.length % 2 ^ 32
  let bodySize := (13 + payloadSize) % 2 ^ 32
  let payload ← copy message.payload payloadSize
  fill (4 + bodySize)
    [u32Bytes bodySize, [typeByte message.type], u32Bytes (unsigned 32 message.term),
      u32Bytes (unsigned 32 message.senderId), u32Bytes payloadSize, payload]

def readRpcMessage (bytes : Bytes) : Reader (Option RpcMessage) := do
  let bodySize ← loadU32 bytes
  let rest ← minus bytes.length 4
  if bodySize ≠ rest then return none
  let byte ← loadAs 1 (readValue 1) bytes
  match typeOfByte (UInt8.ofNat byte) with
  | none => return none
  | some type =>
      let term ← loadU32 bytes
      let senderId ← loadU32 bytes
      let payloadSize ← loadU32 bytes
      let left ← minus bytes.length (← get)
      if payloadSize ≠ left then return none
      let payload ← load bytes payloadSize
      return some ⟨type, signed 32 term, signed 32 senderId, payload⟩

def deserializeRpcMessage (bytes : Bytes) : Option (Option RpcMessage) :=
  if bytes.length < 17 then some none else (readRpcMessage bytes).run' 0

theorem serializeRpcMessage_eq (message : RpcMessage) :
    serializeRpcMessage message = Rpc.serializeRpcMessage message := by
  have inside : message.payload.length % 2 ^ 32 ≤ message.payload.length := Nat.mod_le _ _
  have less : message.payload.length % 2 ^ 32 < 2 ^ 32 := Nat.mod_lt _ (by decide)
  unfold serializeRpcMessage Rpc.serializeRpcMessage
  simp only [copy_eq inside, Option.bind_eq_bind, Option.bind_some, fill_eq, List.flatten_cons, List.flatten_nil,
    List.length_append, List.length_cons, List.length_nil, u32Bytes_length, List.length_take, Nat.min_eq_left inside]
  generalize message.payload.length % 2 ^ 32 = payloadSize at less ⊢
  by_cases small : 13 + payloadSize < 2 ^ 32
  · rw [if_pos small, Nat.mod_eq_of_lt small, if_pos (by omega)]
    have none : 4 + (13 + payloadSize) - (4 + (0 + 1 + (4 + (4 + (4 + (payloadSize + 0)))))) = 0 := by omega
    rw [none]
    simp
  · have wraps : (13 + payloadSize) % 2 ^ 32 = 13 + payloadSize - 2 ^ 32 := by omega
    rw [if_neg small, wraps, if_neg (by omega)]

theorem readRpcMessage_eq {bytes : Bytes} (long : ¬ bytes.length < 17) :
    (readRpcMessage bytes).run' 0 = some (Rpc.deserializeRpcMessage bytes) := by
  have header : 4 ≤ bytes.length := by omega
  unfold readRpcMessage Rpc.deserializeRpcMessage
  rw [if_neg long]
  simp (disch := omega) only [StateT.run'_eq, StateT.run_bind, loadU32_run, minus_run header, Option.bind_eq_bind,
    Option.bind_some, Nat.zero_add, List.drop_zero, fixed_readU32.rest]
  by_cases size : (readU32 bytes).1 ≠ bytes.length - 4
  · rw [if_pos size, if_pos size]
    rfl
  · have next : bytes.drop 4 = bytes[4] :: bytes.drop 5 := List.drop_eq_getElem_cons (by omega)
    have single : UInt8.ofNat (readValue 1 (bytes[4] :: bytes.drop 5)).1 = bytes[4] := UInt8.ofNat_toNat
    rw [if_neg size, if_neg size]
    simp (disch := omega) only [StateT.run_bind, loadAs_run (fixed_readValue 1), Option.bind_eq_bind, Option.bind_some,
      next, single]
    cases typeOfByte bytes[4] with
    | none => rfl
    | some type =>
      have left : 17 ≤ bytes.length := Nat.le_of_not_lt long
      unfold deserializeFields
      simp (disch := omega) only [StateT.run_bind, StateT.run_get, loadU32_run, minus_run left, Option.bind_eq_bind,
        Option.bind_some, Option.pure_def, fixed_readU32.rest, List.drop_drop, Nat.reduceAdd, List.length_drop]
      by_cases payload : (readU32 (bytes.drop 13)).1 ≠ bytes.length - 17
      · rw [if_pos payload, if_pos payload]
        rfl
      · rw [if_neg payload, if_neg payload]
        simp (disch := omega) only [StateT.run_bind, load_run, Option.bind_eq_bind, Option.bind_some]
        rfl

theorem deserializeRpcMessage_eq (bytes : Bytes) :
    deserializeRpcMessage bytes = some (Rpc.deserializeRpcMessage bytes) := by
  by_cases short : bytes.length < 17
  · rw [deserializeRpcMessage, if_pos short, Rpc.deserializeRpcMessage, if_pos short]
  · rw [deserializeRpcMessage, if_neg short, readRpcMessage_eq short]

end Buffered

section Exact

variable {bytes : Bytes} {message : RpcMessage}

def truncated (message : RpcMessage) : RpcMessage :=
  { message with payload := message.payload.take (message.payload.length % 2 ^ 32) }

theorem truncated_eq (short : message.payload.length < 2 ^ 32) : truncated message = message := by
  rw [truncated, Nat.mod_eq_of_lt short, List.take_length]

end Exact

end QuorumDB.Rpc
