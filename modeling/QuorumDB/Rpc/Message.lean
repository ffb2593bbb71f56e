import QuorumDB.Lib.NetworkOrder
import QuorumDB.Raft.Node

/-!
The frame of an RPC message (`rpc/rpc_message.h`) and its reception from a connection
(`ReceiveMessage` in `rpc/rpc_server.cpp`, the same in `rpc/rpc_client.cpp`).
-/

namespace QuorumDB.Rpc
open NetworkOrder Raft

def typeByte : RpcMessageType → UInt8
  | .requestVote => 0
  | .requestVoteReply => 1
  | .appendEntries => 2
  | .appendEntriesReply => 3
  | .ping => 4
  | .pong => 5

/-- Bytes above that of PONG name no type. -/
def typeOfByte (byte : UInt8) : Option RpcMessageType :=
  if byte = 0 then some .requestVote
  else if byte = 1 then some .requestVoteReply
  else if byte = 2 then some .appendEntries
  else if byte = 3 then some .appendEntriesReply
  else if byte = 4 then some .ping
  else if byte = 5 then some .pong
  else none

@[simp] theorem typeOfByte_typeByte (type : RpcMessageType) : typeOfByte (typeByte type) = some type := by
  cases type <;> rfl

/-- The length of the payload is taken modulo 2^32. When the body size wraps around as well,
the header is written past the end of a shorter string. -/
def serializeRpcMessage (message : RpcMessage) : Option Bytes :=
  let payloadSize := message.payload.length % 2 ^ 32
  if 13 + payloadSize < 2 ^ 32 then
    some (u32Bytes (13 + payloadSize) ++ (typeByte message.type :: (u32Bytes (unsigned 32 message.term) ++
      (u32Bytes (unsigned 32 message.senderId) ++ (u32Bytes payloadSize ++ message.payload.take payloadSize)))))
  else none

/-- The reads after the type byte. -/
def deserializeFields (type : RpcMessageType) (bytes : Bytes) : Option RpcMessage :=
  let (term, bytes) := readU32 bytes
  let (senderId, bytes) := readU32 bytes
  let (payloadSize, bytes) := readU32 bytes
  if payloadSize ≠ bytes.length then none
  else some ⟨type, signed 32 term, signed 32 senderId, bytes.take payloadSize⟩

def deserializeRpcMessage (bytes : Bytes) : Option RpcMessage :=
  if bytes.length < 17 then none
  else
    let (bodySize, rest) := readU32 bytes
    if bodySize ≠ bytes.length - 4 then none
    else
      match rest with
      | [] => none
      | byte :: rest =>
          match typeOfByte byte with
          | none => none
          | some type => deserializeFields type rest

def maxMessageSize : Nat := 16 * 1024 * 1024

/-- `stream` is all that arrives on the connection until it ends. -/
def receiveMessage (stream : Bytes) : Option RpcMessage :=
  if stream.length < 4 then none
  else
    let bodySize := (readU32 stream).1
    if bodySize < 13 ∨ bodySize > maxMessageSize then none
    else if stream.length - 4 < bodySize then none
    else deserializeRpcMessage (stream.take (4 + bodySize))

def Typed (message : RpcMessage) : Prop := Signed 32 message.term ∧ Signed 32 message.senderId

def frame (message : RpcMessage) : Bytes :=
  u32Bytes (13 + message.payload.length) ++ (typeByte message.type :: (u32Bytes (unsigned 32 message.term) ++
    (u32Bytes (unsigned 32 message.senderId) ++ (u32Bytes message.payload.length ++ message.payload))))

theorem frame_length (message : RpcMessage) : (frame message).length = 17 + message.payload.length := by
  simp only [frame, List.length_append, List.length_cons, u32Bytes_length]
  omega

theorem serializeRpcMessage_eq {message : RpcMessage} (small : 13 + message.payload.length < 2 ^ 32) :
    serializeRpcMessage message = some (frame message) := by
  have whole : message.payload.length % 2 ^ 32 = message.payload.length := Nat.mod_eq_of_lt (by omega)
  unfold serializeRpcMessage
  simp only [whole, if_pos small, List.take_length]
  rfl

theorem deserializeRpcMessage_frame {message : RpcMessage} (typed : Typed message)
    (small : 13 + message.payload.length < 2 ^ 32) : deserializeRpcMessage (frame message) = some message := by
  have size := frame_length message
  have body : (13 + message.payload.length) % 2 ^ 32 = 13 + message.payload.length := Nat.mod_eq_of_lt small
  have payload : message.payload.length % 2 ^ 32 = message.payload.length := Nat.mod_eq_of_lt (by omega)
  have term := signed_unsigned (by decide) typed.1
  have senderId := signed_unsigned (by decide) typed.2
  have termWord : unsigned 32 message.term % 2 ^ 32 = unsigned 32 message.term :=
    Nat.mod_eq_of_lt (unsigned_lt 32 message.term)
  have senderWord : unsigned 32 message.senderId % 2 ^ 32 = unsigned 32 message.senderId :=
    Nat.mod_eq_of_lt (unsigned_lt 32 message.senderId)
  have fields : deserializeFields message.type (u32Bytes (unsigned 32 message.term) ++
      (u32Bytes (unsigned 32 message.senderId) ++ (u32Bytes message.payload.length ++ message.payload))) =
      some message := by
    simp only [deserializeFields, readU32_append, termWord, senderWord, payload, term, senderId, ne_eq,
      not_true_eq_false, ↓reduceIte, List.take_length]
  have enough : ¬ (frame message).length < 17 := by omega
  have exact_size : 13 + message.payload.length = (frame message).length - 4 := by omega
  rw [deserializeRpcMessage, if_neg enough, ← exact_size, frame, readU32_append, body]
  simp only [ne_eq, not_true_eq_false, ↓reduceIte, typeOfByte_typeByte, fields]

theorem receiveMessage_append {message : RpcMessage} (typed : Typed message)
    (small : 13 + message.payload.length ≤ maxMessageSize) (more : Bytes) :
    receiveMessage (frame message ++ more) = some message := by
  have size := frame_length message
  have below : 13 + message.payload.length < 2 ^ 32 := Nat.lt_of_le_of_lt small (by decide)
  have body : (readU32 (frame message ++ more)).1 = 13 + message.payload.length := by
    rw [frame, List.append_assoc, readU32_append]
    exact Nat.mod_eq_of_lt below
  have all : (frame message ++ more).take (4 + (13 + message.payload.length)) = frame message :=
    List.take_left' (by omega)
  have total : (frame message ++ more).length = (frame message).length + more.length := List.length_append
  have enough : ¬ (frame message ++ more).length < 4 := by omega
  have inside : ¬ (13 + message.payload.length < 13 ∨ 13 + message.payload.length > maxMessageSize) := by omega
  have arrived : ¬ (frame message ++ more).length - 4 < 13 + message.payload.length := by omega
  unfold receiveMessage
  simp only [if_neg enough, body, if_neg inside, if_neg arrived, all]
  exact deserializeRpcMessage_frame typed below

theorem receiveMessage_frame {message : RpcMessage} (typed : Typed message)
    (small : 13 + message.payload.length ≤ maxMessageSize) : receiveMessage (frame message) = some message := by
  have alone := receiveMessage_append typed small []
  rw [List.append_nil] at alone
  exact alone

theorem receiveMessage_part {message : RpcMessage} {stream : Bytes} (small : 13 + message.payload.length < 2 ^ 32)
    (part : stream <+: frame message) (short : stream.length < (frame message).length) : receiveMessage stream = none := by
  rw [frame_length] at short
  unfold receiveMessage
  by_cases header : stream.length < 4
  · exact if_pos header
  · have front : stream.take 4 = (frame message).take 4 := by
      obtain ⟨missing, whole⟩ := part
      rw [← whole, List.take_append_of_le_length (Nat.le_of_not_lt header)]
    have same : (readU32 stream).1 = (readU32 (frame message)).1 := by
      rw [readU32, readU32, front]
    have body : (readU32 stream).1 = 13 + message.payload.length := by
      rw [same, frame, readU32_append]
      exact Nat.mod_eq_of_lt small
    have missing : stream.length - 4 < 13 + message.payload.length := by omega
    simp only [if_neg header, body, if_pos missing, ite_self]

theorem deserializeFields_length {type : RpcMessageType} {bytes : Bytes} {message : RpcMessage}
    (read : deserializeFields type bytes = some message) : message.payload.length = bytes.length - 12 := by
  have first := readU32_snd_length bytes
  unfold deserializeFields at read
  generalize readU32 bytes = front at first read
  obtain ⟨term, bytesOne⟩ := front
  have second := readU32_snd_length bytesOne
  simp only at first read
  generalize readU32 bytesOne = front at second read
  obtain ⟨senderId, bytesTwo⟩ := front
  have third := readU32_snd_length bytesTwo
  simp only at second read
  generalize readU32 bytesTwo = front at third read
  obtain ⟨payloadSize, payload⟩ := front
  simp only at third read
  split_ifs at read with size
  rw [not_not] at size
  rw [← Option.some.inj read]
  change (List.take payloadSize payload).length = _
  rw [size, List.take_length]
  omega

theorem deserializeRpcMessage_length {bytes : Bytes} {message : RpcMessage}
    (read : deserializeRpcMessage bytes = some message) : bytes.length = 17 + message.payload.length := by
  have rest := readU32_snd_length bytes
  unfold deserializeRpcMessage at read
  split_ifs at read with short
  generalize readU32 bytes = front at read rest
  obtain ⟨bodySize, after⟩ := front
  simp only at read rest
  split_ifs at read with size
  cases after with
  | nil => cases read
  | cons byte tail =>
    match kind : typeOfByte byte with
    | none =>
      simp only [kind] at read
      cases read
    | some type =>
      simp only [kind] at read
      have payload := deserializeFields_length read
      rw [List.length_cons] at rest
      omega

theorem receiveMessage_short {stream : Bytes} {message : RpcMessage} (received : receiveMessage stream = some message) :
    13 + message.payload.length ≤ maxMessageSize ∧ (readU32 stream).1 = 13 + message.payload.length := by
  unfold receiveMessage at received
  simp only at received
  split_ifs at received with short limits missing
  have size := deserializeRpcMessage_length received
  rw [List.length_take, Nat.min_eq_left (by omega)] at size
  omega

theorem frame_short {sent received : RpcMessage} (small : 13 + sent.payload.length < 2 ^ 32)
    (arrived : receiveMessage (frame sent) = some received) : 13 + sent.payload.length ≤ maxMessageSize := by
  obtain ⟨limit, size⟩ := receiveMessage_short arrived
  rw [frame, readU32_append, Nat.mod_eq_of_lt small] at size
  omega

end QuorumDB.Rpc
