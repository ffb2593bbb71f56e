import QuorumDB.Rpc.Connection

/-!
One request and its reply on a connection (`HandleConnection` in `rpc/rpc_server.cpp`, the end of
`SendMessage` in `rpc/rpc_client.cpp`). Either side may be cut off at any byte.
-/

namespace QuorumDB.Rpc
open NetworkOrder Raft

variable {State : Type} {chunks : List Bytes} {stream bytes : Bytes}

def Arrives (chunks : List Bytes) (bytes : Bytes) : Prop := chunks.flatten <+: bytes ∧ ∀ chunk ∈ chunks, chunk ≠ []

instance (chunks : List Bytes) (bytes : Bytes) : Decidable (Arrives chunks bytes) := inferInstanceAs (Decidable (_ ∧ _))

/-- The state after one connection, and the bytes of the reply that were put on it. A handler that C++
leaves undefined, or a reply whose frame it does, has no outcome. -/
def handleConnection (handler : State → RpcMessage → Option (State × RpcMessage)) (state : State) (chunks : List Bytes)
    (results : List Nat) : Option (State × Bytes) :=
  match receiveFrom chunks with
  | none => some (state, [])
  | some (request, _) => do
      let (later, reply) ← handler state request
      let bytes ← serializeRpcMessage reply
      some (later, (sendAll results bytes).1)

theorem receiveMessage_mono {message : RpcMessage} (front : stream <+: bytes) (received : receiveMessage stream = some message) :
    receiveMessage bytes = some message := by
  obtain ⟨more, rfl⟩ := front
  unfold receiveMessage at received ⊢
  simp only at received ⊢
  split_ifs at received with short limits missing
  have header : (readU32 (stream ++ more)).1 = (readU32 stream).1 := by
    rw [readU32, readU32, List.take_append_of_le_length (Nat.le_of_not_lt short)]
  have total : (stream ++ more).length = stream.length + more.length := List.length_append
  rw [header, if_neg (by omega), if_neg limits, if_neg (by omega), List.take_append_of_le_length (by omega)]
  exact received

theorem receiveMessage_sent {sent received : RpcMessage} (typed : Typed sent) (small : 13 + sent.payload.length < 2 ^ 32)
    (front : stream <+: frame sent) (arrived : receiveMessage stream = some received) :
    received = sent ∧ receiveMessage (frame sent) = some sent := by
  have whole := receiveMessage_mono front arrived
  have same := receiveMessage_frame typed (frame_short small whole)
  exact ⟨Option.some.inj (whole.symm.trans same), same⟩

theorem receiveFrom_arrives (arrives : Arrives chunks bytes) :
    receiveFrom chunks = none ∨ ∃ message left, receiveFrom chunks = some (message, left) ∧ receiveMessage bytes = some message := by
  obtain ⟨left, same, -⟩ := receiveFrom_eq ⟨rfl, arrives.2⟩
  cases received : receiveMessage chunks.flatten with
  | none =>
    rw [received] at same
    exact .inl same
  | some message =>
    rw [received] at same
    exact .inr ⟨message, left, same, receiveMessage_mono arrives.1 received⟩

theorem sendAll_frame {message : RpcMessage} (small : 13 + message.payload.length < 2 ^ 32) {results : List Nat}
    (written : serializeRpcMessage message = some bytes) : (sendAll results bytes).1 <+: frame message := by
  rw [serializeRpcMessage_eq small] at written
  obtain rfl := Option.some.inj written
  exact (sendAll_front results _).1

theorem receiveMessage_front {message : RpcMessage} (typed : Typed message) (small : 13 + message.payload.length ≤ maxMessageSize)
    (front : stream <+: frame message) : receiveMessage stream = some message ∨ receiveMessage stream = none := by
  by_cases whole : stream.length < (frame message).length
  · exact .inr (receiveMessage_part (Nat.lt_of_le_of_lt small (by decide)) front whole)
  · rw [front.eq_of_length_le (Nat.le_of_not_lt whole)]
    exact .inl (receiveMessage_frame typed small)

/-- A connection serves the request that was sent, once, or nothing. -/
theorem handleConnection_cases {handler : State → RpcMessage → Option (State × RpcMessage)} {state later : State}
    {request : RpcMessage} {sent : Bytes} {results : List Nat} (typed : Typed request)
    (small : 13 + request.payload.length < 2 ^ 32) (front : sent <+: frame request) (arrives : Arrives chunks sent)
    (ran : handleConnection handler state chunks results = some (later, bytes)) :
    later = state ∧ bytes = [] ∨ ∃ reply whole, handler state request = some (later, reply) ∧
      serializeRpcMessage reply = some whole ∧ bytes = (sendAll results whole).1 := by
  unfold handleConnection at ran
  rcases receiveFrom_arrives arrives with nothing | ⟨message, left, received, arrived⟩
  · rw [nothing] at ran
    obtain ⟨rfl, rfl⟩ := Prod.mk.inj (Option.some.inj ran)
    exact .inl ⟨rfl, rfl⟩
  · obtain ⟨rfl, -⟩ := receiveMessage_sent typed small front arrived
    rw [received] at ran
    obtain ⟨⟨after, reply⟩, handled, rest⟩ := Option.bind_eq_some_iff.mp ran
    obtain ⟨whole, written, same⟩ := Option.bind_eq_some_iff.mp rest
    obtain ⟨rfl, rfl⟩ := Prod.mk.inj (Option.some.inj same)
    exact .inr ⟨reply, whole, handled, written, rfl⟩

end QuorumDB.Rpc
