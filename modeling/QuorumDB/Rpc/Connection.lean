import QuorumDB.Rpc.MessageCodec

/-!
Messages over a connection that takes and delivers bytes in pieces (`SendAll`, `ReceiveAll`
and `ReceiveMessage` in `rpc/rpc_server.cpp`, the same in `rpc/rpc_client.cpp`).
-/

namespace QuorumDB.Rpc
open NetworkOrder Raft

/-- The loop of SendAll. `results` are what `send` returns, never more than it was given; the
list ends, or holds a zero, where a call fails, SIGPIPE being ignored. The bytes taken, and the
answer. -/
def sendAll : List Nat → Bytes → Bytes × Bool
  | [], data => ([], data.isEmpty)
  | result :: results, data =>
      if data.isEmpty then ([], true)
      else if result = 0 then ([], false)
      else (data.take result ++ (sendAll results (data.drop result)).1, (sendAll results (data.drop result)).2)

/-- One call of `recv` on the chunks still to arrive. It returns nothing when the stream has ended. -/
def recv (size : Nat) : List Bytes → Bytes × List Bytes
  | [] => ([], [])
  | chunk :: chunks =>
      if chunk.length ≤ size then (chunk, chunks) else (chunk.take size, chunk.drop size :: chunks)

/-- The loop of ReceiveAll. A round that goes on takes at least one byte. -/
def receiveRounds : Nat → Nat → List Bytes → Option (Bytes × List Bytes)
  | 0, missing, chunks => if missing = 0 then some ([], chunks) else none
  | rounds + 1, missing, chunks =>
      if missing = 0 then some ([], chunks)
      else if (recv missing chunks).1 = [] then none
      else
        (receiveRounds rounds (missing - (recv missing chunks).1.length) (recv missing chunks).2).map fun rest =>
          ((recv missing chunks).1 ++ rest.1, rest.2)

def receiveAll (size : Nat) (chunks : List Bytes) : Option (Bytes × List Bytes) := receiveRounds size size chunks

def receiveFrom (chunks : List Bytes) : Option (RpcMessage × List Bytes) := do
  let (networkSize, chunks) ← receiveAll 4 chunks
  let bodySize := (readU32 networkSize).1
  if bodySize < 13 ∨ bodySize > maxMessageSize then none
  else
    let (body, chunks) ← receiveAll bodySize chunks
    let message ← deserializeRpcMessage (networkSize ++ body)
    return (message, chunks)

section Chunks

variable {chunks : List Bytes} {size rounds missing : Nat}

def Delivers (chunks : List Bytes) (stream : Bytes) : Prop := chunks.flatten = stream ∧ ∀ chunk ∈ chunks, chunk ≠ []

theorem recv_delivers {stream : Bytes} (delivers : Delivers chunks stream) (size : Nat) (some : 0 < size) :
    ∃ later, stream = (recv size chunks).1 ++ later ∧ Delivers (recv size chunks).2 later ∧
      (recv size chunks).1.length ≤ size ∧ ((recv size chunks).1 = [] → stream = []) := by
  obtain ⟨rfl, solid⟩ := delivers
  cases chunks with
  | nil => exact ⟨[], rfl, ⟨rfl, solid⟩, Nat.zero_le _, fun _ => rfl⟩
  | cons chunk chunks =>
    have present : chunk ≠ [] := solid chunk List.mem_cons_self
    have others : ∀ other ∈ chunks, other ≠ [] := fun other inside => solid other (List.mem_cons_of_mem _ inside)
    rw [recv]
    by_cases whole : chunk.length ≤ size
    · rw [if_pos whole]
      exact ⟨chunks.flatten, rfl, ⟨rfl, others⟩, whole, fun empty => absurd empty present⟩
    · rw [if_neg whole]
      refine ⟨(chunk.drop size :: chunks).flatten, ?_, ⟨rfl, ?_⟩, List.length_take_le _ _, ?_⟩
      · rw [List.flatten_cons, List.flatten_cons, ← List.append_assoc, List.take_append_drop]
      · intro other inside
        rcases List.mem_cons.mp inside with rfl | later
        · rw [Ne, List.drop_eq_nil_iff]
          exact whole
        · exact others other later
      · intro empty
        have short := congrArg List.length empty
        rw [List.length_take, List.length_nil] at short
        omega

theorem receiveRounds_zero : receiveRounds rounds 0 chunks = some ([], chunks) := by
  cases rounds with
  | zero => rfl
  | succ rounds => rfl

theorem receiveRounds_delivers {stream : Bytes} (delivers : Delivers chunks stream) (enough : missing ≤ rounds) :
    if missing ≤ stream.length then
      ∃ left, receiveRounds rounds missing chunks = some (stream.take missing, left) ∧ Delivers left (stream.drop missing)
    else receiveRounds rounds missing chunks = none := by
  induction rounds generalizing missing chunks stream with
  | zero =>
    obtain rfl := Nat.le_zero.mp enough
    rw [if_pos (Nat.zero_le _)]
    exact ⟨chunks, rfl, delivers⟩
  | succ rounds ih =>
    by_cases done : missing = 0
    · rw [done, if_pos (Nat.zero_le _)]
      exact ⟨chunks, receiveRounds_zero, delivers⟩
    · obtain ⟨later, split, rest, few, ended⟩ := recv_delivers delivers missing (Nat.pos_of_ne_zero done)
      by_cases empty : (recv missing chunks).1 = []
      · have none : ¬ missing ≤ stream.length := by
          rw [ended empty, List.length_nil]
          omega
        rw [if_neg none, receiveRounds, if_neg done, if_pos empty]
      · have some : 0 < (recv missing chunks).1.length := List.length_pos_iff.mpr empty
        have next := @ih _ (missing - (recv missing chunks).1.length) later rest (by omega)
        have total : missing ≤ stream.length ↔ missing - (recv missing chunks).1.length ≤ later.length := by
          rw [split, List.length_append]
          omega
        rw [receiveRounds, if_neg done, if_neg empty, split, List.take_append, List.drop_append,
          List.take_of_length_le few, List.drop_of_length_le few, List.nil_append, ← split]
        by_cases enough : missing ≤ stream.length
        · rw [if_pos (total.mp enough)] at next
          obtain ⟨left, received, behind⟩ := next
          rw [if_pos enough, received]
          exact ⟨left, rfl, behind⟩
        · rw [if_neg fun short => enough (total.mpr short)] at next
          rw [if_neg enough, next, Option.map_none]

theorem receiveAll_delivers {stream : Bytes} (delivers : Delivers chunks stream) (inside : size ≤ stream.length) :
    ∃ left, receiveAll size chunks = some (stream.take size, left) ∧ Delivers left (stream.drop size) := by
  have rounds := receiveRounds_delivers delivers (Nat.le_refl size)
  rw [if_pos inside] at rounds
  exact rounds

theorem receiveAll_ends {stream : Bytes} (delivers : Delivers chunks stream) (short : ¬ size ≤ stream.length) :
    receiveAll size chunks = none := by
  have rounds := receiveRounds_delivers delivers (Nat.le_refl size)
  rw [if_neg short] at rounds
  exact rounds

/-- Chunk by chunk the same message is received as from the whole stream, and what follows
its frame is left. -/
theorem receiveFrom_eq {stream : Bytes} (delivers : Delivers chunks stream) :
    ∃ left, receiveFrom chunks = (receiveMessage stream).map (fun message => (message, left)) ∧
      ∀ message, receiveMessage stream = some message → Delivers left (stream.drop (4 + (readU32 stream).1)) := by
  unfold receiveFrom receiveMessage
  by_cases header : stream.length < 4
  · rw [if_pos header, receiveAll_ends delivers (Nat.not_le_of_lt header)]
    exact ⟨[], rfl, fun message none => nomatch none⟩
  · obtain ⟨chunks, received, rest⟩ := receiveAll_delivers delivers (Nat.le_of_not_lt header)
    have size : (readU32 (stream.take 4)).1 = (readU32 stream).1 := Cursor.fixed_readU32.value stream
    simp only [if_neg header, received, Option.bind_eq_bind, Option.bind_some, size]
    by_cases limits : (readU32 stream).1 < 13 ∨ (readU32 stream).1 > maxMessageSize
    · rw [if_pos limits, if_pos limits]
      exact ⟨[], rfl, fun message none => nomatch none⟩
    · rw [if_neg limits, if_neg limits]
      by_cases missing : stream.length - 4 < (readU32 stream).1
      · have short : ¬ (readU32 stream).1 ≤ (stream.drop 4).length := by
          rw [List.length_drop]
          omega
        rw [if_pos missing, receiveAll_ends rest short]
        exact ⟨[], rfl, fun message none => nomatch none⟩
      · have inside : (readU32 stream).1 ≤ (stream.drop 4).length := by
          rw [List.length_drop]
          omega
        obtain ⟨left, body, behind⟩ := receiveAll_delivers rest inside
        rw [List.drop_drop] at behind
        rw [if_neg missing, body, List.take_add, Option.bind_some]
        refine ⟨left, ?_, fun message _ => behind⟩
        cases deserializeRpcMessage (stream.take 4 ++ (stream.drop 4).take (readU32 stream).1) with
        | none => rfl
        | some message => rfl

end Chunks

theorem sendAll_front (results : List Nat) (data : Bytes) :
    (sendAll results data).1 <+: data ∧ ((sendAll results data).2 = true ↔ (sendAll results data).1 = data) := by
  induction results generalizing data with
  | nil =>
    rw [sendAll, List.isEmpty_iff]
    exact ⟨List.nil_prefix, eq_comm⟩
  | cons result results ih =>
    rw [sendAll]
    by_cases nothing : data.isEmpty = true
    · rw [if_pos nothing]
      exact ⟨List.nil_prefix, iff_of_true rfl (List.isEmpty_iff.mp nothing).symm⟩
    · rw [if_neg nothing]
      by_cases failed : result = 0
      · rw [if_pos failed]
        exact ⟨List.nil_prefix, iff_of_false Bool.false_ne_true fun empty => nothing (List.isEmpty_iff.mpr empty.symm)⟩
      · rw [if_neg failed]
        obtain ⟨front, all⟩ := ih (data.drop result)
        have split := List.take_append_drop result data
        constructor
        · have more := (List.prefix_append_right_inj (data.take result)).mpr front
          rw [split] at more
          exact more
        · rw [all]
          constructor
          · intro rest
            rw [rest, split]
          · intro whole
            apply @List.append_cancel_left _ (data.take result)
            exact whole.trans split.symm

end QuorumDB.Rpc
